import AmdGpuEp.DirectML.FusionRules
import Mathlib.Analysis.SpecialFunctions.Log.Basic

/-!
# The activations that a FusedMatMul kernel can have

The operators behind a `MatMul` with their ONNX functions, and the descriptors
that `BuildActivationDesc` of `fused_matmul_ep_fusion.cc` makes of them, with the
functions that DirectML gives to these. The number that a `float` stands for is a
rational.

Results:
1. `eval_buildActivationDesc`: apart from `Selu`, the descriptor has the function of
   the operator.
2. `selu_eq_linear_iff`: the descriptor for `Selu` is a linear function, which is
   right for `gamma = 0` and a constant 0 only.
-/

namespace AmdGpuEp.DirectML.FusedMatMul

/-- `FusedMatMulActivation`, without `None`. -/
inductive Activation
  | relu
  | sigmoid
  | tanh
  | leakyRelu
  | elu
  | hardSigmoid
  | selu
  | softplus
  | softsign
  | thresholdedRelu
  deriving DecidableEq, Repr

/-- `OrtNodeAdapter::GetAttributeFloat`: the default when the attribute is missing or no float.
`decode` gives the number of a `float`. -/
def getAttributeFloat (decode : UInt32 → Rat) (node : Node) (name : String) (default : Rat) : Rat :=
  match node.attributes.find? fun entry => entry.1 == name with
  | some (_, .float bits) => decode bits
  | _ => default

namespace Activation

def all : List Activation :=
  [relu, sigmoid, tanh, leakyRelu, elu, hardSigmoid, selu, softplus, softsign, thresholdedRelu]

def opType : Activation → String
  | relu => "Relu"
  | sigmoid => "Sigmoid"
  | tanh => "Tanh"
  | leakyRelu => "LeakyRelu"
  | elu => "Elu"
  | hardSigmoid => "HardSigmoid"
  | selu => "Selu"
  | softplus => "Softplus"
  | softsign => "Softsign"
  | thresholdedRelu => "ThresholdedRelu"

/-- The capture of its branch in the pattern. -/
def key : Activation → String
  | relu => "FusedMatMul.relu"
  | sigmoid => "FusedMatMul.sigmoid"
  | tanh => "FusedMatMul.tanh"
  | leakyRelu => "FusedMatMul.leaky"
  | elu => "FusedMatMul.elu"
  | hardSigmoid => "FusedMatMul.hsig"
  | selu => "FusedMatMul.selu"
  | softplus => "FusedMatMul.splus"
  | softsign => "FusedMatMul.ssign"
  | thresholdedRelu => "FusedMatMul.threlu"

theorem activations_eq : activations = all.map fun a => (a.opType, a.key) :=
  rfl

theorem mem_all (a : Activation) : a ∈ all := by
  cases a <;> decide

theorem opType_injective : Function.Injective opType := by
  have h : ∀ a ∈ all, ∀ a' ∈ all, a.opType = a'.opType → a = a' := by decide
  exact fun a a' => h a (mem_all a) a' (mem_all a')

theorem key_injective : Function.Injective key := by
  have h : ∀ a ∈ all, ∀ a' ∈ all, a.key = a'.key → a = a' := by decide
  exact fun a a' => h a (mem_all a) a' (mem_all a')

/-- The ONNX function of the operator on one element. `attr` gives the attributes of the node, with
their defaults. -/
noncomputable def eval (attr : String → Rat → Rat) (x : ℝ) : Activation → ℝ
  | relu => max x 0
  | sigmoid => 1 / (1 + Real.exp (-x))
  | tanh => Real.tanh x
  | leakyRelu => if x < 0 then attr "alpha" 0.01 * x else x
  | elu => if x < 0 then attr "alpha" 1 * (Real.exp x - 1) else x
  | hardSigmoid => max 0 (min 1 (attr "alpha" 0.2 * x + attr "beta" 0.5))
  | selu =>
    attr "gamma" 1.05070102 *
      if x ≤ 0 then attr "alpha" 1.67326319 * Real.exp x - attr "alpha" 1.67326319 else x
  | softplus => Real.log (Real.exp x + 1)
  | softsign => x / (1 + |x|)
  | thresholdedRelu => if attr "alpha" 1 < x then x else 0

end Activation

/-! ## The descriptors of DirectML -/

/-- The activation of a GEMM: `DML_ACTIVATION_*_OPERATOR_DESC`. -/
inductive DmlActivation
  | relu
  | sigmoid
  | tanh
  | leakyRelu (alpha : Rat)
  | elu (alpha : Rat)
  | hardSigmoid (alpha beta : Rat)
  | linear (alpha beta : Rat)
  | softplus (steepness : Rat)
  | softsign
  | thresholdedRelu (alpha : Rat)
  deriving DecidableEq, Repr

/-- The function that DirectML gives to a descriptor. -/
noncomputable def DmlActivation.eval (x : ℝ) : DmlActivation → ℝ
  | relu => max 0 x
  | sigmoid => 1 / (1 + Real.exp (-x))
  | tanh => (1 - Real.exp (-x) ^ 2) / (1 + Real.exp (-x) ^ 2)
  | leakyRelu alpha => if 0 ≤ x then x else alpha * x
  | elu alpha => if 0 ≤ x then x else alpha * (Real.exp x - 1)
  | hardSigmoid alpha beta => max 0 (min (alpha * x + beta) 1)
  | linear alpha beta => alpha * x + beta
  | softplus steepness => Real.log (1 + Real.exp (steepness * x)) / steepness
  | softsign => x / (1 + |x|)
  | thresholdedRelu alpha => if alpha < x then x else 0

/-- `act_alpha`, `act_beta` and `act_gamma`. -/
structure ActivationAttrs where
  alpha : Rat := 0
  beta : Rat := 0
  gamma : Rat := 0
  deriving DecidableEq, Repr

/-- `BuildActivationDesc`. -/
def buildActivationDesc (attrs : ActivationAttrs) : Activation → DmlActivation
  | .relu => .relu
  | .sigmoid => .sigmoid
  | .tanh => .tanh
  | .leakyRelu => .leakyRelu attrs.alpha
  | .elu => .elu attrs.alpha
  | .hardSigmoid => .hardSigmoid attrs.alpha attrs.beta
  | .selu => .linear attrs.alpha attrs.gamma
  | .softplus => .softplus 1
  | .softsign => .softsign
  | .thresholdedRelu => .thresholdedRelu attrs.alpha

/-- One turn of the loop of `Compile` that reads the attributes. -/
def readActivationAttrs (decode : UInt32 → Rat) (attrs : ActivationAttrs) (node : Node) :
    ActivationAttrs :=
  if node.opType = "LeakyRelu" ∨ node.opType = "Elu" ∨ node.opType = "ThresholdedRelu" then
    { attrs with
      alpha := getAttributeFloat decode node "alpha"
        (if node.opType = "LeakyRelu" then 0.01 else 1) }
  else if node.opType = "HardSigmoid" then
    { attrs with
      alpha := getAttributeFloat decode node "alpha" 0.2
      beta := getAttributeFloat decode node "beta" 0.5 }
  else if node.opType = "Selu" then
    { attrs with
      alpha := getAttributeFloat decode node "alpha" 1.67326319
      gamma := getAttributeFloat decode node "gamma" 1.05070102 }
  else attrs

/-! ## The functions of the descriptors -/

theorem tanh_eq (x : ℝ) :
    Real.tanh x = (1 - Real.exp (-x) ^ 2) / (1 + Real.exp (-x) ^ 2) := by
  have hexp : Real.exp (-x) ^ 2 = Real.exp (-x) / Real.exp x := by
    rw [← Real.exp_sub, ← Real.exp_nat_mul]
    push_cast
    ring_nf
  have hpos := Real.exp_pos x
  rw [Real.tanh_eq_sinh_div_cosh, Real.sinh_eq, Real.cosh_eq, hexp]
  field_simp

theorem eval_buildActivationDesc (decode : UInt32 → Rat) {n : Node} {a : Activation}
    (hop : n.opType = a.opType) (ha : a ≠ .selu) (x : ℝ) :
    (buildActivationDesc (readActivationAttrs decode {} n) a).eval x =
      a.eval (getAttributeFloat decode n) x := by
  have hflip : ∀ p q : ℝ, (if 0 ≤ x then p else q) = if x < 0 then q else p := by
    intro p q
    simp only [← not_lt, ite_not]
  cases a with
  | relu => exact max_comm 0 x
  | sigmoid => rfl
  | tanh => exact (tanh_eq x).symm
  | leakyRelu => simp [readActivationAttrs, hop, Activation.opType, buildActivationDesc,
      DmlActivation.eval, Activation.eval, hflip]
  | elu => simp [readActivationAttrs, hop, Activation.opType, buildActivationDesc,
      DmlActivation.eval, Activation.eval, hflip]
  | hardSigmoid => simp [readActivationAttrs, hop, Activation.opType, buildActivationDesc,
      DmlActivation.eval, Activation.eval, min_comm]
  | selu => exact absurd rfl ha
  | softplus => simp [buildActivationDesc, DmlActivation.eval, Activation.eval, add_comm]
  | softsign => rfl
  | thresholdedRelu => simp [readActivationAttrs, hop, Activation.opType, buildActivationDesc,
      DmlActivation.eval, Activation.eval]

/-- The linear function of the descriptor for a `Selu`, behind a scale. -/
theorem selu_eq_linear_iff (alpha gamma scale : Rat) :
    (∀ x : ℝ, (DmlActivation.linear alpha gamma).eval (scale * x) =
        gamma * if scale * x ≤ 0 then alpha * Real.exp (scale * x) - alpha else scale * x) ↔
      gamma = 0 ∧ (alpha = 0 ∨ scale = 0) := by
  constructor
  · intro h
    have hgamma : gamma = 0 := by
      have hzero := h 0
      simpa [DmlActivation.eval] using hzero
    subst hgamma
    have hone := h 1
    simp only [DmlActivation.eval, mul_one, Rat.cast_zero, add_zero, zero_mul, mul_eq_zero,
      Rat.cast_eq_zero] at hone
    exact ⟨rfl, hone⟩
  · rintro ⟨rfl, rfl | rfl⟩ x
    · simp [DmlActivation.eval]
    · simp [DmlActivation.eval]

end AmdGpuEp.DirectML.FusedMatMul
