import Reckoner.Assembly.Basic
import Reckoner.Assembly.Build
import Reckoner.Assembly.Describe
import Reckoner.Batch
import Reckoner.Calculator
import Reckoner.Catalog.Basic
import Reckoner.Catalog.Entry
import Reckoner.Catalog.Registration
import Reckoner.Catalog.Registry
import Reckoner.Catalog.Standard
import Reckoner.Catalog.Table
import Reckoner.Console.Arguments
import Reckoner.Console.Report
import Reckoner.Datum
import Reckoner.Decimal.Binary
import Reckoner.Decimal.Digits
import Reckoner.Decimal.Fixed
import Reckoner.Decimal.Layout
import Reckoner.Decimal.Numeral
import Reckoner.Decimal.Places
import Reckoner.Error
import Reckoner.Expression.Analysis
import Reckoner.Expression.Basic
import Reckoner.Expression.Depth
import Reckoner.Expression.Evaluate
import Reckoner.Expression.Outline
import Reckoner.Expression.Path
import Reckoner.Field.Basic
import Reckoner.Main
import Reckoner.Number.Aggregate
import Reckoner.Number.Elementary
import Reckoner.Number.Power
import Reckoner.Number.Remainder
import Reckoner.Sample.Formula
import Reckoner.Sample.Sampler
import Reckoner.Service.Reply
import Reckoner.Settings
import Reckoner.Settings.Intake
import Reckoner.Sheet.Column
import Reckoner.Sheet.Record
import Reckoner.Sheet.Table
import Reckoner.Text.Blank
import Reckoner.Text.Digit
import Reckoner.Text.Printable
import Reckoner.Text.Quoted
import Reckoner.Token.Basic
import Reckoner.Token.Lexer
import Reckoner.Proofs.Catalog.Regular
import Reckoner.Proofs.Expression.Shape
import Reckoner.Proofs.Grammar.Phrase
import Reckoner.Proofs.Grammar.Trees
import Reckoner.Proofs.Stack.Pending
import Reckoner.Proofs.Stack.Reached
import Reckoner.Proofs.Stack.Step
import Reckoner.Proofs.Stack.Complete
import Reckoner.Proofs.Decimal.Plain
import Reckoner.Proofs.Grammar.Calls
import Reckoner.Proofs.Grammar.Exact
import Reckoner.Proofs.Reading.Interpretation
import Reckoner.Proofs.Reading.Textbook
import Reckoner.Proofs.Evaluation.Alike
import Reckoner.Proofs.Evaluation.Parentheses
import Reckoner.Proofs.Token.Spelling
import Reckoner.Proofs.Token.Writing
import Reckoner.Proofs.Stack.Sound
import Reckoner.Proofs.Evaluation.Evaluable
import Reckoner.Proofs.Number.Factorial
import Reckoner.Proofs.Calculator.Parse
import Reckoner.Proofs.Grammar.References
import Reckoner.Proofs.Evaluation.Order
import Reckoner.Proofs.Evaluation.FirstFailure
import Reckoner.Proofs.Evaluation.Safety
import Reckoner.Proofs.Evaluation.Route
import Reckoner.Proofs.Catalog.Constants
import Reckoner.Proofs.Expression.Marks
import Reckoner.Proofs.Expression.Numbers
import Reckoner.Proofs.Grammar.Marks
import Reckoner.Proofs.Grammar.Groups
import Reckoner.Proofs.Grammar.Constants
import Reckoner.Proofs.Stack.Fed
import Reckoner.Proofs.Stack.Calls
import Reckoner.Proofs.Stack.Completion
import Reckoner.Proofs.Evaluation.Constants
import Reckoner.Proofs.Series.History
import Reckoner.Proofs.Service.Batch
import Reckoner.Proofs.Expression.Products
import Reckoner.Proofs.Evaluation.Products
import Reckoner.Proofs.Grammar.Brackets
import Reckoner.Proofs.Grammar.Unclosed
import Reckoner.Proofs.Stack.Refusals
import Reckoner.Proofs.Stack.Parentheses
import Reckoner.Proofs.Token.Places
import Reckoner.Proofs.Calculator.Places
import Reckoner.Proofs.Evaluation.Refusals
import Reckoner.Proofs.Series.Composition
import Reckoner.Proofs.Expression.InOrder
import Reckoner.Proofs.Expression.Analysis
import Reckoner.Proofs.Stack.Marks
import Reckoner.Proofs.Stack.Products
import Reckoner.Proofs.Reading.Analysis
import Reckoner.Proofs.Grammar.Contents
import Reckoner.Proofs.Grammar.Arguments
import Reckoner.Proofs.Grammar.Scopes
import Reckoner.Proofs.Evaluation.Arity
import Reckoner.Proofs.Expression.Depth
import Reckoner.Proofs.Expression.Walk
import Reckoner.Proofs.Stack.Growth
import Reckoner.Proofs.Calculator.Bounds
import Reckoner.Proofs.Stack.Agreement
import Reckoner.Proofs.Calculator.Agreement
import Reckoner.Proofs.Decimal.Unsigned
import Reckoner.Proofs.Reading.Origins
import Reckoner.Proofs.Reading.Rebuild
import Reckoner.Proofs.Text.Lines
import Reckoner.Proofs.Expression.Drawing
import Reckoner.Proofs.Reading.Drawing
import Reckoner.Proofs.Calculator.Foreign
import Reckoner.Proofs.Catalog.History
import Reckoner.Proofs.Catalog.Session
import Reckoner.Proofs.Stack.Adjacency
import Reckoner.Proofs.Decimal.Magnitude
import Reckoner.Proofs.Decimal.Hundredths
import Reckoner.Proofs.Decimal.Positional
import Reckoner.Proofs.Evaluation.Levels
import Reckoner.Proofs.Evaluation.Chains
import Reckoner.Proofs.Evaluation.Operands
import Reckoner.Proofs.Sample.Ensures
import Reckoner.Proofs.Sample.Terms
import Reckoner.Proofs.Sample.Series
