import ContentQuery.Compiler
import ContentQuery.Environment
import ContentQuery.Report
import ContentQuery.Proofs.BadLeaves
import ContentQuery.Proofs.Contentful.CommaLists
import ContentQuery.Proofs.Contentful.FieldSpelling
import ContentQuery.Proofs.Contentful.Grouping
import ContentQuery.Proofs.Contentful.IncludeDepth
import ContentQuery.Proofs.Contentful.Preservation
import ContentQuery.Proofs.Contentful.QueryString
import ContentQuery.Proofs.Degradation
import ContentQuery.Proofs.EntryForms
import ContentQuery.Proofs.EnvironmentOptions
import ContentQuery.Proofs.Exclusions
import ContentQuery.Proofs.ExplicitLocale
import ContentQuery.Proofs.GlobalConditions
import ContentQuery.Proofs.Groq.Bindings
import ContentQuery.Proofs.Groq.InlinedNames
import ContentQuery.Proofs.Groq.Noninterference
import ContentQuery.Proofs.Groq.OutOfBand
import ContentQuery.Proofs.Groq.Preservation
import ContentQuery.Proofs.Groq.RawFilter
import ContentQuery.Proofs.Groq.UnusedPlaceholders
import ContentQuery.Proofs.Members
import ContentQuery.Proofs.PathGrammar
import ContentQuery.Proofs.ProjectionAccount
import ContentQuery.Proofs.Qdrant.Call
import ContentQuery.Proofs.Qdrant.Preservation
import ContentQuery.Proofs.ReferenceLists
import ContentQuery.Proofs.SetOrder
import ContentQuery.Proofs.StructuralFaults
import ContentQuery.Proofs.SystemFields
import ContentQuery.Proofs.Unconstrained
import ContentQuery.Proofs.Windows
