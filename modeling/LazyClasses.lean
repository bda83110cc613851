import LazyClasses.ClassName
import LazyClasses.ClassScope
import LazyClasses.Command.Arguments
import LazyClasses.Command.Log
import LazyClasses.Command.Run
import LazyClasses.Decimal.Binary64
import LazyClasses.Decimal.Shortest
import LazyClasses.Declaration
import LazyClasses.Declaration.Json
import LazyClasses.DefaultExpr
import LazyClasses.Event
import LazyClasses.Hierarchy
import LazyClasses.Json.Basic
import LazyClasses.Json.Decoder
import LazyClasses.Json.Numeral
import LazyClasses.Json.Printer
import LazyClasses.Json.Reader
import LazyClasses.Json.Token
import LazyClasses.LazyClass.Generator
import LazyClasses.LazyClass.Ghost
import LazyClasses.LazyClass.Proxy
import LazyClasses.LazyClass.Refusal
import LazyClasses.Main
import LazyClasses.NaturalOrder
import LazyClasses.PropertyScope.Basic
import LazyClasses.PropertyScope.Cache
import LazyClasses.PropertyScope.Inherited
import LazyClasses.PropertyScope.Literal
import LazyClasses.Proofs.Decisions
import LazyClasses.Proofs.DeclarationTexts
import LazyClasses.Proofs.Declared
import LazyClasses.Proofs.Methods
import LazyClasses.Registry.Basic
import LazyClasses.Registry.FileTree
import LazyClasses.Registry.Load
import LazyClasses.Signature
import LazyClasses.Support
import LazyClasses.Text.Blank
import LazyClasses.Text.Case
import LazyClasses.Text.Quoted
import LazyClasses.Text.Replace
import LazyClasses.Text.Split
import LazyClasses.TypeHint.Basic
import LazyClasses.TypeHint.Parser
import LazyClasses.TypeHint.Printer
import LazyClasses.TypeHint.Render
import LazyClasses.Proofs.Overridden
import LazyClasses.Proofs.ScopeMap
import LazyClasses.Proofs.PropertyScopes
import LazyClasses.Proofs.NaturalOrder
import LazyClasses.Proofs.StringExpr
import LazyClasses.Proofs.ScopeLiterals
import LazyClasses.Proofs.NulLiterals
import LazyClasses.Proofs.RelativeNames
import LazyClasses.Session
import LazyClasses.Proofs.Sessions
import LazyClasses.Proofs.Pieces
import LazyClasses.Proofs.TypeGrammar
import LazyClasses.Proofs.PrintedTypes
import LazyClasses.Proofs.RenderedLeaves
import LazyClasses.Proofs.RenderedTypes
import LazyClasses.Proofs.GhostEligibility
import LazyClasses.Proofs.NaturalReading
import LazyClasses.Proofs.Registration
import LazyClasses.Proofs.Correspondence
import LazyClasses.Proofs.PairedGenerators
import LazyClasses.Proofs.RegistrationOrder
import LazyClasses.Proofs.ReferenceSpelling
import LazyClasses.Proofs.FoldedTypes
import LazyClasses.Proofs.BuiltinCase
import LazyClasses.Proofs.ReturnedProxy
import LazyClasses.Proofs.DeclaredVisibility
import LazyClasses.Proofs.ImplementedNames
import LazyClasses.Proofs.ForwardedArguments
import LazyClasses.Proofs.InterfaceSearch
import LazyClasses.Proofs.OwnInterfaces
import LazyClasses.Proofs.Subtypes
import LazyClasses.Proofs.CollectedMethods
import LazyClasses.Proofs.Prototypes
import LazyClasses.Proofs.TentativeResults
import LazyClasses.Proofs.RequalifiedTwice
import LazyClasses.Proofs.KeywordCase
import LazyClasses.Proofs.MemberOrder
import LazyClasses.Proofs.NormalForm
import LazyClasses.Proofs.DistinctMembers
import LazyClasses.Proofs.RenderedClasses
import LazyClasses.Proofs.LongestChain
import LazyClasses.Proofs.FieldOrder
import LazyClasses.Proofs.WrittenDeclarations
import LazyClasses.Proofs.LoadedDirectories
