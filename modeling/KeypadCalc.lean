import KeypadCalc.Settings
import KeypadCalc.Window
import KeypadCalc.Proofs.TypedCalculation
import KeypadCalc.Proofs.ShownOperand
import KeypadCalc.Proofs.OperandSpacing
import KeypadCalc.Proofs.ForeignCharacters
import KeypadCalc.Proofs.RepeatedOperand
import KeypadCalc.Proofs.PendingCalculation
import KeypadCalc.Proofs.ErrorLifetime
import KeypadCalc.Proofs.BufferBounds
import KeypadCalc.Proofs.OperatorOrder
import KeypadCalc.Proofs.NextDeadline
import KeypadCalc.Proofs.FrameRate
import KeypadCalc.Proofs.RecordedHistory
import KeypadCalc.Proofs.DoubleGrid
import KeypadCalc.Proofs.AcceptedKeys
import KeypadCalc.Proofs.EvaluationErrors
import KeypadCalc.Proofs.InputSurfaces
import KeypadCalc.Proofs.PercentRuns
import KeypadCalc.Proofs.ResultText
import KeypadCalc.Proofs.TokenReading
import KeypadCalc.Proofs.ArrangedTokens
import KeypadCalc.Proofs.OperatorKeys
import KeypadCalc.Proofs.PostfixTrees
import KeypadCalc.Proofs.ErrorMessages
import KeypadCalc.Proofs.PrintedTokens
import KeypadCalc.Proofs.SettingsBounds
import KeypadCalc.Proofs.StoredForm
import KeypadCalc.Proofs.ClearedEntry
