import NetTrial.Graph.Convolution
import NetTrial.Proofs.RowMajor
import NetTrial.Proofs.Shapes
/-!
# Convolutions as sums over their windows

An accepted convolution gives an output of the planned shape, and each of its elements is the
sum over the window of its position: input coordinates are signed, the positions outside the
input are left out, and every factor is read at a multi-index. Here each read and each division
is a partial operation, so that the law also says that none of them fails. Addition,
multiplication and activation stay what they are; the law only speaks of their order.
-/

namespace NetTrial.Graph.Convolution

open Number

variable {c : Convolution} {depthwise : Bool} {shape : Shape} {p : Plan} {values : List Single}

/-! ## The sum over a window -/

/-- The input coordinate of a tap, which may lie outside the input. -/
def signedCoordinate (position stride tap dilation pad : Nat) : Int :=
  position * stride + tap * dilation - pad

/-- A position of a window and the input row and column that it meets. -/
structure Meeting where
  /-- The filter row. -/
  ky : Nat
  /-- The filter column. -/
  kx : Nat
  /-- The input row. -/
  y : Int
  /-- The input column. -/
  x : Int

/-- Whether a position of a window meets the input. -/
def Meeting.inside (p : Plan) (m : Meeting) : Bool :=
  (0 ≤ m.y ∧ m.y < p.height) ∧ 0 ≤ m.x ∧ m.x < p.width

/-- The window of an output position, row by row. -/
def window (c : Convolution) (p : Plan) (oy ox : Nat) : List Meeting :=
  (List.range c.filterShape.height).flatMap fun ky =>
    (List.range c.filterShape.width).map fun kx =>
      ⟨ky, kx, signedCoordinate oy c.strides.1 ky c.dilations.1 p.rows.pad,
        signedCoordinate ox c.strides.2 kx c.dilations.2 p.columns.pad⟩

/-- The input channels of an output channel, each with the last index of its weight. The channel
of a depthwise convolution is found by division. -/
def sources? (c : Convolution) (depthwise : Bool) (channels oc : Nat) : Option (List (Nat × Nat)) :=
  if depthwise then
    if c.filterShape.outputs = 0 then none
    else some [(oc / c.filterShape.outputs, oc % c.filterShape.outputs)]
  else some ((List.range channels).map fun ic => (ic, oc))

/-- An input element times a weight, both read at their multi-indices. -/
def product? (c : Convolution) (p : Plan) (values : List Single) (n : Nat) (m : Meeting)
    (source : Nat × Nat) : Option Single := do
  let element ← Shape.element? values [p.batch, p.height, p.width, p.channels]
    [n, m.y.toNat, m.x.toNat, source.1]
  let weight ← Shape.element? c.filter c.filterShape.shape [m.ky, m.kx, source.1, source.2]
  return element * weight

/-- The sum over the window of an output position, from zero on, then the bias, then the
activation. -/
def windowSum? (c : Convolution) (depthwise : Bool) (p : Plan) (values : List Single)
    (n oy ox oc : Nat) : Option Single := do
  let sources ← c.sources? depthwise p.channels oc
  let met := (c.window p oy ox).filter (Meeting.inside p)
  let terms ← (met.flatMap fun m => sources.map fun source => (m, source)).mapM
    fun (m, source) => c.product? p values n m source
  let sum := terms.foldl (· + ·) .zero
  match c.bias with
  | none => return c.activation.apply sum
  | some bias => return c.activation.apply (sum + (← bias[oc]?))

/-! ## Accepted convolutions -/

/-- What an accepted plan says of a convolution and of the shape that reaches it. -/
structure Plans (c : Convolution) (depthwise : Bool) (shape : Shape) (p : Plan) : Prop where
  /-- The shape has four axes, channels last. -/
  shape : shape = [p.batch, p.height, p.width, p.channels]
  /-- The filter takes the channels of the input. -/
  channels : c.filterShape.inputs = p.channels
  /-- There is a weight for each multi-index of the filter. -/
  filter : c.filter.length = Shape.size c.filterShape.shape
  /-- A depthwise convolution gives so many outputs for each channel. -/
  outputs : p.outputs =
    if depthwise then p.channels * c.filterShape.outputs else c.filterShape.outputs
  /-- A bias has a number for each output channel. -/
  bias : ∀ bias, c.bias = some bias → bias.length = p.outputs
  /-- The vertical output extent and padding. -/
  rows : outputExtent p.height c.filterShape.height c.strides.1 c.dilations.1 c.padding =
    .ok p.rows
  /-- The horizontal output extent and padding. -/
  columns : outputExtent p.width c.filterShape.width c.strides.2 c.dilations.2 c.padding =
    .ok p.columns

/-- What a convolution has to meet to be accepted: the sizes of filter and output fit a word, and
so does the number of output channels where it is a product. -/
structure Accepts (c : Convolution) (depthwise : Bool) (shape : Shape) (p : Plan) : Prop
    extends Plans c depthwise shape p where
  /-- The weights are counted. -/
  filterCount : c.filterShape.shape.elementCount = .ok c.filter.length
  /-- The output channels of a depthwise convolution fit a word. -/
  channelCount : depthwise = true → p.channels * c.filterShape.outputs < wordLimit
  /-- The output is counted. -/
  outputCount : p.shape.elementCount = .ok (Shape.size p.shape)

theorem outputChannels_eq_ok_iff {channels outputs : Nat} :
    c.outputChannels depthwise channels = .ok outputs ↔
      outputs = (if depthwise then channels * c.filterShape.outputs else c.filterShape.outputs) ∧
        (depthwise = true → channels * c.filterShape.outputs < wordLimit) := by
  rw [outputChannels]
  cases depthwise with
  | false => simp [eq_comm]
  | true =>
    have hmul := @checkedMul_eq_some_iff channels c.filterShape.outputs outputs
    cases hproduct : checkedMul channels c.filterShape.outputs with
    | none =>
      rw [hproduct] at hmul
      simpa using hmul
    | some n =>
      rw [hproduct] at hmul
      simpa using hmul

theorem checkBias_eq_ok_iff {bias : Option (List Single)} {channels : Nat} {u : Unit} :
    checkBias bias channels = .ok u ↔ ∀ b, bias = some b → b.length = channels := by
  cases bias with
  | none => simp [checkBias]
  | some values => by_cases h : values.length = channels <;> simp [checkBias, h]

/-- The extents of a convolution divide by its strides, which are tested first. -/
theorem stride_ne_zero {input kernel stride dilation : Nat} {padding : Padding} {extent : Extent}
    (h : outputExtent input kernel stride dilation padding = .ok extent) : stride ≠ 0 := by
  rintro rfl
  rw [outputExtent, if_pos (Or.inr (Or.inl rfl))] at h
  cases h

theorem plan_accepts (c : Convolution) (depthwise : Bool) (shape : Shape) :
    Gives (c.plan depthwise shape) (Accepts c depthwise shape) := by
  unfold plan
  split
  · rename_i batch height width channels
    refine gives_cases (fun _ => gives_error) fun hchannels => ?_
    refine .bind (((gives_self _).mapError _).mono fun needed hneeded => ?_)
    refine gives_cases (fun _ => gives_error) fun hfilter => ?_
    refine .bind ((gives_self _).mono fun outputs houtputs => ?_)
    refine .bind ((gives_self _).mono fun _ hbias => ?_)
    refine .bind (((gives_self _).mapError _).mono fun rows hrows => ?_)
    refine .bind (((gives_self _).mapError _).mono fun columns hcolumns => ?_)
    refine .bind (((gives_self _).mapError _).mono fun count hcount => gives_ok ?_)
    have hlength : c.filter.length = needed := not_not.mp hfilter
    obtain ⟨hvalue, hword⟩ := (outputChannels_eq_ok_iff).mp houtputs
    exact {
      shape := rfl
      channels := not_not.mp hchannels
      filter := hlength.trans (Shape.elementCount_eq_ok hneeded).1
      outputs := hvalue
      bias := (checkBias_eq_ok_iff).mp hbias
      rows := hrows
      columns := hcolumns
      filterCount := hlength ▸ hneeded
      channelCount := hword
      outputCount := (Shape.elementCount_eq_ok hcount).1 ▸ hcount }
  · exact gives_error

theorem plan_gives (c : Convolution) (depthwise : Bool) (shape : Shape) :
    Gives (c.plan depthwise shape) (Plans c depthwise shape) :=
  (plan_accepts c depthwise shape).mono fun _ h => h.toPlans

/-- What meets all conditions is planned. -/
theorem plan_eq_ok_iff : c.plan depthwise shape = .ok p ↔ Accepts c depthwise shape p := by
  constructor
  · exact (plan_accepts c depthwise shape).of_ok
  · intro h
    have houtputs : c.outputChannels depthwise p.channels = .ok p.outputs :=
      (outputChannels_eq_ok_iff).mpr ⟨h.outputs, h.channelCount⟩
    have hbias : checkBias c.bias p.outputs = .ok () := (checkBias_eq_ok_iff).mpr h.bias
    have hcount : Shape.elementCount [p.batch, p.rows.out, p.columns.out, p.outputs] =
        .ok (Shape.size p.shape) := h.outputCount
    rw [h.shape, plan, h.filterCount]
    simp [h.channels, houtputs, hbias, h.rows, h.columns, hcount, Plan.shape, Except.mapError,
      bind, Except.bind, pure, Except.pure]

/-! ## The window and the taps of the loop -/

/-- The tap that meets the input where a position of the window does. -/
def Meeting.tap (m : Meeting) : Tap := ⟨m.ky, m.kx, m.y.toNat, m.x.toNat⟩

/-- A tap has a coordinate when the signed coordinate lies inside the input, and it is that
one. -/
theorem tapCoordinate?_eq (position stride tap dilation pad extent : Nat) :
    tapCoordinate? position stride tap dilation pad extent =
      let signed := signedCoordinate position stride tap dilation pad
      if 0 ≤ signed ∧ signed < extent then some signed.toNat else none := by
  have hcast : signedCoordinate position stride tap dilation pad =
      ((position * stride + tap * dilation : Nat) : Int) - pad := by
    rw [signedCoordinate, Int.natCast_add, Int.natCast_mul, Int.natCast_mul]
  rw [tapCoordinate?, hcast]
  generalize position * stride + tap * dilation = reached
  by_cases h : pad ≤ reached ∧ reached - pad < extent
  · have hsigned : 0 ≤ (reached : Int) - pad ∧ (reached : Int) - pad < extent := by omega
    simp only [if_pos h, if_pos hsigned, Option.some.injEq]
    omega
  · have hsigned : ¬ (0 ≤ (reached : Int) - pad ∧ (reached : Int) - pad < extent) := by omega
    simp only [if_neg h, if_neg hsigned]

/-- The taps of an output position are the positions of its window that meet the input. -/
theorem taps_eq (c : Convolution) (p : Plan) (oy ox : Nat) :
    c.taps p oy ox = ((c.window p oy ox).filter (Meeting.inside p)).map Meeting.tap := by
  rw [taps, window, List.filter_flatMap, List.map_flatMap]
  refine congrArg (List.flatMap · _) (funext fun ky => ?_)
  rw [tapCoordinate?_eq, List.filter_map, List.map_map]
  generalize signedCoordinate oy c.strides.1 ky c.dilations.1 p.rows.pad = y
  by_cases hy : 0 ≤ y ∧ y < p.height
  · -- The row lies inside the input, so the columns decide.
    simp only [if_pos hy]
    induction List.range c.filterShape.width with
    | nil => rfl
    | cons kx columns ih =>
      rw [List.filterMap_cons, ih, tapCoordinate?_eq, List.filter_cons]
      simp only [Function.comp_apply, Meeting.inside, hy, true_and]
      by_cases hx : 0 ≤ signedCoordinate ox c.strides.2 kx c.dilations.2 p.columns.pad ∧
          signedCoordinate ox c.strides.2 kx c.dilations.2 p.columns.pad < p.width
      · simp [hx, Meeting.tap]
      · simp [hx]
  · rw [List.filter_eq_nil_iff.mpr fun kx _ hinside => hy (of_decide_eq_true hinside).1]
    simp only [if_neg hy, List.map_nil]

theorem mem_window {m : Meeting} {oy ox : Nat} (h : m ∈ c.window p oy ox) :
    m.ky < c.filterShape.height ∧ m.kx < c.filterShape.width := by
  obtain ⟨ky, hky, hm⟩ := List.mem_flatMap.mp h
  obtain ⟨kx, hkx, rfl⟩ := List.mem_map.mp hm
  exact ⟨List.mem_range.mp hky, List.mem_range.mp hkx⟩

/-! ## Every factor is there -/

/-- The division that finds the channel of an output of a depthwise convolution is by no zero,
since otherwise there are no outputs. -/
theorem sources?_eq (h : Plans c depthwise shape p) {oc : Nat} (hoc : oc < p.outputs) :
    c.sources? depthwise p.channels oc = some (c.channelsOf depthwise p oc) := by
  rw [sources?, channelsOf]
  cases depthwise with
  | false => rfl
  | true =>
    have houtputs : p.outputs = p.channels * c.filterShape.outputs := h.outputs
    have hne : c.filterShape.outputs ≠ 0 := by
      intro hzero
      rw [houtputs, hzero, Nat.mul_zero] at hoc
      exact absurd hoc (Nat.not_lt_zero oc)
    rw [if_pos rfl, if_pos rfl, if_neg hne]

/-- The sources of an output channel are channels of the input and of the filter. -/
theorem lt_of_mem_channelsOf (h : Plans c depthwise shape p) {oc : Nat} (hoc : oc < p.outputs)
    {source : Nat × Nat} (hs : source ∈ c.channelsOf depthwise p oc) :
    source.1 < p.channels ∧ source.2 < c.filterShape.outputs := by
  rw [channelsOf] at hs
  have houtputs := h.outputs
  cases depthwise with
  | false =>
    obtain ⟨ic, hic, rfl⟩ := List.mem_map.mp hs
    rw [houtputs, if_neg Bool.false_ne_true] at hoc
    exact ⟨List.mem_range.mp hic, hoc⟩
  | true =>
    obtain rfl := List.mem_singleton.mp hs
    rw [houtputs, if_pos rfl] at hoc
    have hpos : 0 < c.filterShape.outputs :=
      Nat.pos_of_ne_zero fun hzero => by rw [hzero, Nat.mul_zero] at hoc; cases hoc
    exact ⟨Nat.div_lt_of_lt_mul (Nat.mul_comm _ _ ▸ hoc), Nat.mod_lt oc hpos⟩

/-- The product that the loop computes from a tap and a source. -/
def factor (c : Convolution) (p : Plan) (values : List Single) (n : Nat) (t : Tap)
    (source : Nat × Nat) : Single :=
  values.toArray.getD (((n * p.height + t.iy) * p.width + t.ix) * p.channels + source.1) .zero *
    c.filter.toArray.getD (((t.ky * c.filterShape.width + t.kx) * c.filterShape.inputs + source.1) *
      c.filterShape.outputs + source.2) .zero

/-- Both factors of a product lie inside their lists. -/
theorem product?_eq (h : Plans c depthwise shape p) (hlength : values.length = Shape.size shape)
    {n oy ox oc : Nat} (hn : n < p.batch) (hoc : oc < p.outputs) {m : Meeting}
    (hm : m ∈ (c.window p oy ox).filter (Meeting.inside p)) {source : Nat × Nat}
    (hs : source ∈ c.channelsOf depthwise p oc) :
    c.product? p values n m source = some (c.factor p values n m.tap source) := by
  obtain ⟨hwindow, hinside⟩ := List.mem_filter.mp hm
  obtain ⟨hky, hkx⟩ := mem_window hwindow
  obtain ⟨hy, hx⟩ := of_decide_eq_true hinside
  obtain ⟨hic, hlast⟩ := lt_of_mem_channelsOf h hoc hs
  have hinput : Shape.Indexes [n, m.y.toNat, m.x.toNat, source.1]
      [p.batch, p.height, p.width, p.channels] :=
    Shape.indexes_four.mpr ⟨hn, by omega, by omega, hic⟩
  have hfilter : Shape.Indexes [m.ky, m.kx, source.1, source.2] c.filterShape.shape :=
    Shape.indexes_four.mpr ⟨hky, hkx, h.channels ▸ hic, hlast⟩
  rw [product?, Shape.element?_of_indexes (h.shape ▸ hlength) hinput .zero,
    Shape.element?_of_indexes h.filter hfilter .zero, Shape.place_four, FilterShape.shape,
    Shape.place_four]
  rfl

theorem mapM_eq_some {α β : Type} {l : List α} {f : α → Option β} {g : α → β}
    (h : ∀ a ∈ l, f a = some (g a)) : l.mapM f = some (l.map g) := by
  induction l with
  | nil => rfl
  | cons a l ih =>
    rw [List.mapM_cons, h a List.mem_cons_self, ih fun b hb => h b (List.mem_cons_of_mem a hb)]
    rfl

/-- The products of an output element are those of the positions that meet the input with the
sources of the channel. -/
theorem products_eq (c : Convolution) (depthwise : Bool) (p : Plan) (values : List Single)
    (n oy ox oc : Nat) :
    c.products depthwise p values.toArray c.filter.toArray n oy ox oc =
      (((c.window p oy ox).filter (Meeting.inside p)).flatMap fun m =>
        (c.channelsOf depthwise p oc).map fun source => (m, source)).map
          fun (m, source) => c.factor p values n m.tap source := by
  rw [products, taps_eq, List.flatMap_map, List.map_flatMap]
  simp only [List.map_map]
  rfl

/-- The sum over the window of an output position exists and is the output element. -/
theorem windowSum?_eq (h : Plans c depthwise shape p) (hlength : values.length = Shape.size shape)
    {n oy ox oc : Nat} (hn : n < p.batch) (hoc : oc < p.outputs) :
    c.windowSum? depthwise p values n oy ox oc =
      some (c.outputAt depthwise p values.toArray c.filter.toArray n oy ox oc) := by
  have hterms := mapM_eq_some (l := ((c.window p oy ox).filter (Meeting.inside p)).flatMap fun m =>
    (c.channelsOf depthwise p oc).map fun source => (m, source))
    (f := fun (m, source) => c.product? p values n m source)
    (g := fun (m, source) => c.factor p values n m.tap source) (by
      rintro ⟨m, source⟩ hmem
      obtain ⟨m', hm, hpair⟩ := List.mem_flatMap.mp hmem
      obtain ⟨source', hs, heq⟩ := List.mem_map.mp hpair
      cases heq
      exact product?_eq h hlength hn hoc hm hs)
  rw [← products_eq] at hterms
  simp only [windowSum?, sources?_eq h hoc, hterms, outputAt, bind, Option.bind]
  cases hbias : c.bias with
  | none => rfl
  | some bias =>
    have hlt : oc < bias.length := h.bias bias hbias ▸ hoc
    simp only [List.getD_eq_getElem?_getD, List.getElem?_eq_getElem hlt, Option.getD_some]
    rfl

/-- Each element of the output stands at the multi-index of the position that it is computed
for. -/
theorem outputs_element? {n oy ox oc : Nat} (h : Shape.Indexes [n, oy, ox, oc] p.shape) :
    Shape.element? (c.outputs depthwise p values) p.shape [n, oy, ox, oc] =
      some (c.outputAt depthwise p values.toArray c.filter.toArray n oy ox oc) := by
  rw [Shape.element?, if_pos h, outputs, List.getElem?_map,
    List.getElem?_range (Shape.place_lt h), Option.map_some, Shape.coordinates_place h]

/-- An accepted convolution of as many values as its input shape asks for gives as many values
as the output shape asks for, and at each multi-index of the output the sum over the window of
that position, computed without a read beyond a list and without a division by zero. -/
theorem run_windowSums {result : Shape × List Single}
    (hlength : values.length = Shape.size shape) (hrun : c.run depthwise shape values = .ok result) :
    ∃ p, c.plan depthwise shape = .ok p ∧ Plans c depthwise shape p ∧
      c.strides.1 ≠ 0 ∧ c.strides.2 ≠ 0 ∧
      result.1 = [p.batch, p.rows.out, p.columns.out, p.outputs] ∧
      result.2.length = Shape.size result.1 ∧
      ∀ n oy ox oc, n < p.batch → oy < p.rows.out → ox < p.columns.out → oc < p.outputs →
        ∃ value, c.windowSum? depthwise p values n oy ox oc = some value ∧
          Shape.element? result.2 result.1 [n, oy, ox, oc] = some value := by
  rw [run] at hrun
  cases hplan : c.plan depthwise shape with
  | error fault =>
    rw [hplan] at hrun
    cases hrun
  | ok p =>
    rw [hplan] at hrun
    obtain rfl : (p.shape, c.outputs depthwise p values) = result := Except.ok.inj hrun
    have h : Plans c depthwise shape p := (plan_gives c depthwise shape).of_ok hplan
    refine ⟨p, rfl, h, stride_ne_zero h.rows, stride_ne_zero h.columns, rfl, by simp [outputs], ?_⟩
    intro n oy ox oc hn hoy hox hoc
    exact ⟨_, windowSum?_eq h hlength hn hoc,
      outputs_element? (Shape.indexes_four.mpr ⟨hn, hoy, hox, hoc⟩)⟩

/-- Two outputs for each of two channels, with windows of two rows and two columns. -/
def doubled : Convolution where
  filterShape := ⟨2, 2, 2, 2⟩
  filter := (List.range 16).map .ofNat
  bias := some [.six, .zero, .zero, .six]
  strides := (1, 1)
  dilations := (1, 1)
  padding := .same
  activation := .relu6

/-- In the corner of a square of two only the first tap of the window meets the input: the last
output comes from the second channel and its second weight. -/
theorem run_windowSums_corner :
    ∃ result, doubled.run true [1, 2, 2, 2] ((List.range 8).map .ofNat) = .ok result ∧
      result.1 = [1, 2, 2, 4] ∧
      Shape.element? result.2 result.1 [0, 1, 1, 3] =
        some (Activation.relu6.apply ((.zero + .ofNat 7 * .ofNat 3) + .six)) := by
  have hrun : doubled.run true [1, 2, 2, 2] ((List.range 8).map .ofNat) =
      .ok ([1, 2, 2, 4], doubled.outputs true ⟨1, 2, 2, 2, ⟨2, 0⟩, ⟨2, 0⟩, 4⟩
        ((List.range 8).map .ofNat)) := rfl
  obtain ⟨p, hplan, -, -, -, hshape, -, hsums⟩ := run_windowSums rfl hrun
  obtain rfl : ⟨1, 2, 2, 2, ⟨2, 0⟩, ⟨2, 0⟩, 4⟩ = p := Except.ok.inj hplan
  obtain ⟨value, hsum, helement⟩ :=
    hsums 0 1 1 3 (by decide) (by decide) (by decide) (by decide)
  refine ⟨_, hrun, rfl, helement.trans (hsum.symm.trans ?_)⟩
  rfl

end NetTrial.Graph.Convolution
