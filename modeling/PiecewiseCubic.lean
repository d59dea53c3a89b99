import PiecewiseCubic.Cell.Literal
import PiecewiseCubic.Main
import PiecewiseCubic.Monotonicity.Slope
import PiecewiseCubic.Polynomial.Coefficients
import PiecewiseCubic.Tool
import PiecewiseCubic.Tridiagonal.Session
import PiecewiseCubic.Proofs.Curve.Additivity
import PiecewiseCubic.Proofs.Curve.Admission
import PiecewiseCubic.Proofs.Curve.Checked
import PiecewiseCubic.Proofs.Curve.CrossingCount
import PiecewiseCubic.Proofs.Curve.Definedness
import PiecewiseCubic.Proofs.Curve.Expansion
import PiecewiseCubic.Proofs.Curve.Halving
import PiecewiseCubic.Proofs.Curve.Meeting
import PiecewiseCubic.Proofs.Curve.MirroredPoints
import PiecewiseCubic.Proofs.Curve.Monotone
import PiecewiseCubic.Proofs.Curve.Sampling
import PiecewiseCubic.Proofs.Curve.Shrinking
import PiecewiseCubic.Proofs.Curve.Smoothness
import PiecewiseCubic.Proofs.Curve.Table
import PiecewiseCubic.Proofs.Curve.Tails
import PiecewiseCubic.Proofs.Curve.Uniqueness
import PiecewiseCubic.Proofs.Monotonicity
import PiecewiseCubic.Proofs.Polynomial.Exactness
import PiecewiseCubic.Proofs.Settings
import PiecewiseCubic.Proofs.Tabulation
import PiecewiseCubic.Proofs.Tridiagonal.Completeness
import PiecewiseCubic.Proofs.Tridiagonal.Soundness
import PiecewiseCubic.Proofs.Tridiagonal.Store
import PiecewiseCubic.Proofs.TwoPoints
