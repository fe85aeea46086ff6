import Formulary.Main
import Formulary.Proofs.Backtrace
import Formulary.Proofs.BulkAgreement
import Formulary.Proofs.Conversions
import Formulary.Proofs.FirstProblem
import Formulary.Proofs.FreeNames
import Formulary.Proofs.Growth
import Formulary.Proofs.Hidden
import Formulary.Proofs.LaterLines
import Formulary.Proofs.Loading
import Formulary.Proofs.Lookups
import Formulary.Proofs.MemoKeys
import Formulary.Proofs.Parameters
import Formulary.Proofs.Positions
import Formulary.Proofs.ReadBack
import Formulary.Proofs.SetAlgebra
import Formulary.Proofs.SharedMemo
import Formulary.Proofs.SortedValues
import Formulary.Proofs.Termination
