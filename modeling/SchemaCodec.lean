import SchemaCodec.Files.Tree
import SchemaCodec.Main
import SchemaCodec.Message.Envelope
import SchemaCodec.Proofs.Delivery
import SchemaCodec.Proofs.ValueParts
import SchemaCodec.Proofs.Recognition
import SchemaCodec.Proofs.WireFormat
import SchemaCodec.Proofs.MessageFormat
import SchemaCodec.Proofs.Outcomes
import SchemaCodec.Proofs.SourceAgreement
import SchemaCodec.Proofs.Fitting
import SchemaCodec.Proofs.Pairing
import SchemaCodec.Proofs.Projection
import SchemaCodec.Proofs.ValueEquality
import SchemaCodec.Proofs.Writing
import SchemaCodec.Proofs.Transmission
import SchemaCodec.Proofs.Skipping
import SchemaCodec.Proofs.Refusal
import SchemaCodec.Proofs.LinkSteps
import SchemaCodec.Proofs.LinkedSchema
import SchemaCodec.Proofs.LinkSoundness
import SchemaCodec.Proofs.LinkedRegistry
import SchemaCodec.Proofs.RoundTrip
import SchemaCodec.Proofs.WrittenLength
import SchemaCodec.Proofs.SettledValues
import SchemaCodec.Proofs.NormalForm
import SchemaCodec.Proofs.SchemaEvolution
import SchemaCodec.Proofs.SkipAgreement
import SchemaCodec.Proofs.ClosedGraph
import SchemaCodec.Proofs.TypedDefaults
import SchemaCodec.Proofs.BreadthFirst
import SchemaCodec.Proofs.QualifiedNames
import SchemaCodec.Proofs.NameResolution
import SchemaCodec.Proofs.WellFormedDocuments
import SchemaCodec.Proofs.TakenNames
import SchemaCodec.Proofs.TypedefTrails
import SchemaCodec.Proofs.AcceptedDocuments
import SchemaCodec.Proofs.LinkCompleteness
import SchemaCodec.Proofs.LinkAcceptance
import SchemaCodec.Proofs.ValueIdentity
import SchemaCodec.Proofs.InsertionOrder
import SchemaCodec.Proofs.Batches
import SchemaCodec.Proofs.CanonicalEncoding
import SchemaCodec.Proofs.MessageEnvelopes
import SchemaCodec.Proofs.MessageRoundTrip
import SchemaCodec.Proofs.SurvivingTypes
import SchemaCodec.Proofs.Rearrangement
import SchemaCodec.Proofs.RearrangedDeclarations
import SchemaCodec.Proofs.MirroredLiterals
import SchemaCodec.Proofs.GroundedConstants
import SchemaCodec.Proofs.RearrangedConstants
import SchemaCodec.Proofs.SuppliedDefaults
import SchemaCodec.Proofs.WaitingDefaults
import SchemaCodec.Proofs.RearrangedDefaults
import SchemaCodec.Proofs.LinkOrder
import SchemaCodec.Proofs.ClashingNames
import SchemaCodec.Proofs.DeclaredNames
import SchemaCodec.Proofs.SuppliedFields
import SchemaCodec.Proofs.FaithfulEntries
import SchemaCodec.Proofs.Materialisation
import SchemaCodec.Proofs.PartsOfScopes
import SchemaCodec.Proofs.TypesOfParts
import SchemaCodec.Proofs.LinkedParts
import SchemaCodec.Proofs.ConstantsOfParts
import SchemaCodec.Proofs.ModularLinking
import SchemaCodec.Proofs.DocumentWords
import SchemaCodec.Proofs.ExistingTexts
import SchemaCodec.Proofs.ParserSteps
import SchemaCodec.Proofs.ReadingDefinitions
import SchemaCodec.Proofs.ReadingDocuments
import SchemaCodec.Proofs.Simulation
import SchemaCodec.Proofs.SelfDelimiting
import SchemaCodec.Proofs.LooserLimits
import SchemaCodec.Proofs.FieldLaw
import SchemaCodec.Proofs.ValidatedWriting
import SchemaCodec.Proofs.BrokenStreams
import SchemaCodec.Proofs.ExceptionBodies
import SchemaCodec.Proofs.HeaderForms
import SchemaCodec.Proofs.MethodStructs
import SchemaCodec.Proofs.CompletedStructs
import SchemaCodec.Proofs.FieldNames
import SchemaCodec.Proofs.ComposedValues
import SchemaCodec.Proofs.CopiedLabels
import SchemaCodec.Proofs.MethodLookup
import SchemaCodec.Proofs.ErrorPlaces
import SchemaCodec.Proofs.TransparentTypedefs
import SchemaCodec.Proofs.TypedefCycles
import SchemaCodec.Proofs.DiscoveryOrder
import SchemaCodec.Proofs.VisibleDocuments
import SchemaCodec.Proofs.LoadedDocuments
import SchemaCodec.Proofs.CanonicalPaths
import SchemaCodec.Proofs.LinkFaults
import SchemaCodec.Proofs.IncludeClosure
import SchemaCodec.Proofs.NamedRendering
import SchemaCodec.Proofs.IntegerLiterals
