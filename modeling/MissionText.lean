import MissionText.Main
import MissionText.Proofs.Catalog.TextMap
import MissionText.Proofs.Command.Run
import MissionText.Proofs.Script.Again
import MissionText.Proofs.Script.Identifiers
import MissionText.Proofs.Script.Items
import MissionText.Proofs.Script.Provenance
import MissionText.Proofs.Script.Save
import MissionText.Proofs.Stringtable.Reading
import MissionText.Proofs.Stringtable.RoundTrip
import MissionText.Proofs.Workspace.Written
import MissionText.Proofs.Workspace.Effects
import MissionText.Proofs.Xliff.Merge
import MissionText.Proofs.Xliff.RoundTrip
import MissionText.Proofs.Xml.Encoded
import MissionText.Proofs.Catalog.Search
import MissionText.Proofs.Catalog.Tags
import MissionText.Proofs.Xliff.Export
import MissionText.Proofs.Catalog.History
import MissionText.Proofs.Catalog.Json
import MissionText.Proofs.Workspace.Export
import MissionText.Proofs.Workspace.Skipped
import MissionText.Proofs.Xliff.Reexport
import MissionText.Proofs.Script.Occurrences
import MissionText.Proofs.Script.Readings
import MissionText.Proofs.Xml.Bracketing
import MissionText.Proofs.Discovery.Scripts
