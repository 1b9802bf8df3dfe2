import NetTrial.Trial.Fixture
/-!
# The bundled fixtures

Four small trials that come with the harness: a convolution compiled to floating point and
to bytes, one with bias and bounded activation whose tensors are staged as npy, and a chain
of a strided depthwise convolution, a bias and an activation.
-/

namespace NetTrial.Fixture

open Number NetTrial.Graph

/-- Words from quarters. -/
def quarters (ns : List Int) : List Single :=
  ns.map fun n => ⟨(Format.single.round (n < 0) n.natAbs 4).toUInt32⟩

/-- The words from one to a count. -/
def countUp (n : Nat) : List Single := (List.range n).map fun i => Single.ofNat (i + 1)

/-- The arguments of a runtime that are staged tensors of a format. -/
def formatArgs (format : DatasetFormat) : List String := ["--dataset-format", format.name]

/-- One convolution over a three by three window, its input counted up from one. -/
def counted (id : String) (compileArgs : List String) (tolerance : Double) (expectInexact : Bool) :
    Fixture where
  id := id
  case := defaultCase
  model := {
    version := 1
    input := ⟨[1, 3, 3, 1], .f32⟩
    ops := [.conv {
      filterShape := ⟨3, 3, 1, 1⟩
      filter := countUp 9
      bias := none
      strides := (1, 1)
      dilations := (1, 1)
      padding := .same
      activation := .none }] }
  inputShape := [1, 1, 3, 3]
  inputValues := some (countUp 9)
  compileArgs := compileArgs
  inferArgs := formatArgs .raw
  tolerance := tolerance
  expectInexact := expectInexact

/-- The convolution in floating point. -/
def floatConvolution : Fixture :=
  counted "conv2d_3x3_same_float" ["-t", "cpu", "--inference-type", "float"] .zero false

/-- The tolerance of a quantized trial: twelve hundredths. -/
def quantizedTolerance : Double := ⟨(Format.double.ofDecimal false 12 (-2)).toUInt64⟩

/-- The convolution in bytes, whose output has to be inexact. -/
def byteConvolution : Fixture :=
  counted "conv2d_3x3_same_uint8" ["-t", "cpu", "--inference-type", "uint8", "--use-float-input"]
    quantizedTolerance true

/-- A convolution with bias and bounded activation, staged as npy. -/
def boundedConvolution : Fixture where
  id := "conv2d_bias_relu6_npy_float"
  case := defaultCase
  model := {
    version := 1
    input := ⟨[1, 4, 4, 2], .f32⟩
    ops := [.conv {
      filterShape := ⟨3, 3, 2, 2⟩
      filter := quarters
        [-10, 4, -4, 10, 2, -6, 8, 0, -8, 6, -2, -10, 4, -4, 10, 2, -6, 8, 0, -8, 6, -2, -10, 4,
          -4, 10, 2, -6, 8, 0, -8, 6, -2, -10, 4, -4]
      bias := some (quarters [-16, 10])
      strides := (1, 1)
      dilations := (1, 1)
      padding := .same
      activation := .relu6 }] }
  inputShape := [1, 2, 4, 4]
  inputValues := none
  compileArgs := ["-t", "cpu", "--inference-type", "float"]
  inferArgs := formatArgs .npy
  tolerance := .zero
  expectInexact := false

/-- A strided depthwise convolution, a bias and an activation. -/
def depthwiseChain : Fixture where
  id := "depthwise_stride2_valid_float"
  case := defaultCase
  model := {
    version := 1
    input := ⟨[1, 5, 5, 2], .f32⟩
    ops := [
      .depthwise {
        filterShape := ⟨3, 3, 2, 1⟩
        filter := quarters
          [4, -4, 2, 8, 0, 4, -2, 6, 4, 1, 8, -4, 0, 2, 4, 4, -8, 3]
        bias := none
        strides := (2, 2)
        dilations := (1, 1)
        padding := .valid
        activation := .none },
      .addBias (quarters [2, -2]),
      .activate .relu] }
  inputShape := [1, 2, 5, 5]
  inputValues := none
  compileArgs := ["--target", "cpu", "--inference-type", "float"]
  inferArgs := formatArgs .raw
  tolerance := .zero
  expectInexact := false

/-- The bundled fixtures in order. -/
def bundled : List Fixture :=
  [floatConvolution, byteConvolution, boundedConvolution, depthwiseChain]

end NetTrial.Fixture
