import NumericRules.Main
import NumericRules.Proofs.Blanking
import NumericRules.Proofs.Cancellations
import NumericRules.Proofs.CompoundUpdates
import NumericRules.Proofs.Deliveries
import NumericRules.Proofs.FailedRegistrations
import NumericRules.Proofs.Fallbacks
import NumericRules.Proofs.FaultPlaces
import NumericRules.Proofs.FormulaValue
import NumericRules.Proofs.GivenHooks
import NumericRules.Proofs.Grammar.ArgumentLists
import NumericRules.Proofs.Grammar.SumsOfProducts
import NumericRules.Proofs.IgnoredWrites
import NumericRules.Proofs.LastAssigned
import NumericRules.Proofs.NestingLimit
import NumericRules.Proofs.ProcessRefinement
import NumericRules.Proofs.ProcessTargets
import NumericRules.Proofs.Productions
import NumericRules.Proofs.RaisedLimits
import NumericRules.Proofs.RandomIntegers
import NumericRules.Proofs.RegistryTables
import NumericRules.Proofs.Remainders
import NumericRules.Proofs.ReorderedSteps
import NumericRules.Proofs.Resets
import NumericRules.Proofs.ReturnedValue
import NumericRules.Proofs.StatementLines
import NumericRules.Proofs.SymbolicForm
import NumericRules.Proofs.UndoneWatches
import NumericRules.Proofs.Unreached
import NumericRules.Proofs.ValueArrays
import NumericRules.Proofs.ValueForm
