import ProcessorListing.Main
import ProcessorListing.Proofs.CommonFields
import ProcessorListing.Proofs.Concatenation
import ProcessorListing.Proofs.Facts
import ProcessorListing.Proofs.Reports
import ProcessorListing.Proofs.Readings
import ProcessorListing.Proofs.JsonReader
import ProcessorListing.Proofs.JsonRoundTrip
import ProcessorListing.Proofs.Spelling
import ProcessorListing.Proofs.Documents
import ProcessorListing.Proofs.Arguments
import ProcessorListing.Proofs.Runs
import ProcessorListing.Proofs.Stanzas
import ProcessorListing.Proofs.FactLists
import ProcessorListing.Proofs.Statements
import ProcessorListing.Proofs.Sessions
import ProcessorListing.Proofs.Insertions
import ProcessorListing.Proofs.Names
import ProcessorListing.Proofs.Numerals
import ProcessorListing.Proofs.Flaws
import ProcessorListing.Proofs.Renames
import ProcessorListing.Proofs.RepeatedSentinel
