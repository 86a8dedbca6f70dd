import ObjectLang.Main
import ObjectLang.Proofs.Eval.Monotone
import ObjectLang.Proofs.Store.Growth
import ObjectLang.Proofs.Eval.Preserve
import ObjectLang.Proofs.Store.Core
import ObjectLang.Proofs.Store.Release
import ObjectLang.Proofs.ObjectGraph
import ObjectLang.Proofs.HashCalls
import ObjectLang.Proofs.MalformedTrees
import ObjectLang.Proofs.Parse.Shapes
import ObjectLang.Proofs.PrintParse
import ObjectLang.Proofs.Token.Tiles
import ObjectLang.Proofs.InspectExecute
import ObjectLang.Proofs.SessionPrograms
import ObjectLang.Proofs.LexicalCalls
import ObjectLang.Proofs.BrokenOutput
import ObjectLang.Proofs.ValueEquality
import ObjectLang.Proofs.Precedence
import ObjectLang.Proofs.MethodResolution
import ObjectLang.Proofs.HashKeys
import ObjectLang.Proofs.NestedConstructs
import ObjectLang.Proofs.BareCalls
import ObjectLang.Proofs.MethodNames
import ObjectLang.Proofs.ClassVariables
import ObjectLang.Proofs.ScopeTree
import ObjectLang.Proofs.OpenDefinitions
import ObjectLang.Proofs.IntegerDivision
import ObjectLang.Proofs.EqualityLaws
import ObjectLang.Proofs.ExitCodes
import ObjectLang.Proofs.TextForms
import ObjectLang.Proofs.Indexing
import ObjectLang.Proofs.TokenText
import ObjectLang.Proofs.LexicalErrors
import ObjectLang.Proofs.LineNumbers
import ObjectLang.Proofs.ValueOrder
import ObjectLang.Proofs.StreamQueue
import ObjectLang.Proofs.ReusedParsers
import ObjectLang.Proofs.LineEndings
