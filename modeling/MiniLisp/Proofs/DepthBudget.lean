import MiniLisp.Proofs.Calculation
import MiniLisp.Proofs.ClosureStock
import MiniLisp.Proofs.DepthLimit

/-!
# The levels that a run needs

A form goes down by as many levels as it is deep, and a body begins as deep as the arguments of its
call, which is no deeper than the form that calls it reaches. So a run in which never more than so
many bodies are active at a time needs so many times the depth of the deepest body, and the depth of
the form once more. From the host it takes no more than three slots for each of these levels, and
two.
-/

namespace MiniLisp

namespace Evaluator

/-- Evaluates with at most `count` bodies active at a time, and with these evaluators in the place of
those for the bodies beyond. -/
def evalNesting (limit : Int) (beyond : Nat → Stack → Step) : Nat → Nat → Stack → Step
  | 0 => evalCalling limit beyond
  | count + 1 => evalCalling limit (evalNesting limit beyond count)

/-- In the evaluation of the form from this store, with that many levels on that stack, never more
than `count` bodies are active at a time: it is the same whatever stands in the place of the bodies
beyond. No error is ever caught, so a body beyond that was come to would show in the end. -/
def NestsAtMost (limit : Int) (count room : Nat) (stack : Stack) (form : Form) (scope : FrameId)
    (s : Store) : Prop :=
  ∀ beyond, (evalNesting limit beyond count room stack form scope).run s =
    (evalWithin limit room stack form scope).run s

end Evaluator

namespace Store

/-- The second frame can be come to from the first: along parents, and from a frame to those that
the closures bound in it have captured. -/
inductive Leads (s : Store) (scope : FrameId) : FrameId → Prop
  | self : Leads s scope scope
  | parent {f g : FrameId} (hf : Leads s scope f) (h : s.parent? f = some g) : Leads s scope g
  | captured {f g : FrameId} {name : String} {v : Value} {id : Nat} {params : List String}
      {body : Form} (hf : Leads s scope f) (hv : (name, v) ∈ s.bindings f)
      (h : v.Has (.closure id params body g)) : Leads s scope g

/-- A closure with the body can be come to from the frame. -/
inductive Offers (s : Store) (scope : FrameId) : Form → Prop
  | bound {f captured : FrameId} {name : String} {v : Value} {id : Nat} {params : List String}
      {body : Form} (hf : s.Leads scope f) (hv : (name, v) ∈ s.bindings f)
      (h : v.Has (.closure id params body captured)) : Offers s scope body

end Store

theorem Form.Part.depth_lt {item whole : Form} (h : item.Part whole) :
    item.depth < whole.depth := by
  obtain ⟨items, rfl, mem⟩ := h.exists_items
  exact Form.depth_lt_of_mem mem

namespace Stock

open Evaluator

variable {K : Stock} {limit : Int}

theorem Runs.not_exhausted {α : Type} {result : α → Prop} {x : Eval α} (h : K.Runs result x)
    (hK : ¬ K.exhausts) {s : Store} (hs : s.Fits K) : ¬ Eval.Exhausted (x.run s) := by
  rintro ⟨limit, t, hrun⟩
  have hends := h s hs
  rw [hrun] at hends
  exact hK (hends.2 limit rfl)

/-- A form that is followed by `k` levels at least keeps to the stock, if bodies do to which `k`
levels and one more are left. By itself it takes two slots for each of its levels, and a call takes
three where the form took two. -/
theorem yields_evalCalling {bodies : Nat → Stack → Step} {D k spare : Nat} (hspare : 2 ≤ spare)
    (hmade : ∀ params b, (Form.lambda params b).depth ≤ D → K.closure params b)
    (hbodies : 0 < D → ∀ room stack, k < room → stack.holds (spare - 1) →
      ∀ params b inner, K.closure params b → K.live inner → K.Yields (bodies room stack b inner))
    {room : Nat} {stack : Stack} {form : Form} {scope : FrameId} (hscope : K.live scope)
    (hdepth : form.depth ≤ D) (hroom : form.depth + k < room)
    (hstack : stack.holds (2 * form.depth + spare)) :
    K.Yields (evalCalling limit bodies room stack form scope) := by
  induction room generalizing stack form with
  | zero => exact absurd hroom (Nat.not_lt_zero _)
  | succ room ih =>
      rw [evalCalling_of_holds (Stack.holds_mono hstack (by omega))]
      apply yields_evalForm hscope
      · rintro params b rfl
        exact hmade params b hdepth
      · intro item hitem
        have hlt := hitem.depth_lt
        exact ih (by omega) (by omega) (Form.holds_below_of_depth_lt hstack hlt)
      · intro hpos
        have hthree : spare - 1 + Host.slotsPerLevel ≤ 2 * form.depth + spare := by
          change spare - 1 + 3 ≤ 2 * form.depth + spare
          omega
        exact hbodies (by omega) room _ (by omega)
          (Stack.holds_below (Stack.holds_mono hstack hthree))

/-- Closures whose bodies are at most that deep, in runs that are not cut short. -/
def shallow (D : Nat) (live : FrameId → Prop) : Stock := ⟨fun _ body ↦ body.depth ≤ D, live, False⟩

/-- Induction on the bodies that may be active: each begins `D` levels further down at most, with
three slots less for each of them. -/
theorem yields_evalNesting {D : Nat} {live : FrameId → Prop} {beyond : Nat → Stack → Step}
    (hbeyond : ∀ room stack form scope, (shallow D live).Yields (beyond room stack form scope))
    (count : Nat) {room : Nat} {stack : Stack} {form : Form} {scope : FrameId}
    (hscope : live scope) (hdepth : form.depth ≤ D) (hroom : form.depth + count * D < room)
    (hstack : stack.holds (2 * form.depth + (3 * (count * D) + 2))) :
    (shallow D live).Yields (evalNesting limit beyond count room stack form scope) := by
  have hmade : ∀ params b, (Form.lambda params b).depth ≤ D → (shallow D live).closure params b := by
    intro params b hlambda
    have hlt := (Form.Part.body (params.map .symbol) b).depth_lt
    exact Nat.le_of_lt (Nat.lt_of_lt_of_le hlt hlambda)
  induction count generalizing room stack form scope with
  | zero =>
      apply yields_evalCalling (by omega) hmade _ hscope hdepth hroom hstack
      exact fun _ room stack _ _ _ b inner _ _ ↦ hbeyond room stack b inner
  | succ count ih =>
      apply yields_evalCalling (by omega) hmade _ hscope hdepth hroom hstack
      intro hpos room stack hlt hholds params b inner (hbody : b.depth ≤ D) hinner
      have hsucc : (count + 1) * D = count * D + D := Nat.succ_mul count D
      exact ih hinner hbody (by omega) (Stack.holds_mono hholds (by omega))

end Stock

section Budget

open Evaluator Eval

variable {D count : Nat} {limit : Int} {form : Form} {scope : FrameId} {s : Store}

/-- The closures that can be come to from the frame are in stock, and all frames to come are live. -/
theorem Store.fits_shallow (h : ∀ body, s.Offers scope body → body.depth ≤ D) :
    s.Fits (.shallow D fun f ↦ s.Leads scope f ∨ s.frames.size ≤ f) := by
  refine ⟨?_, ?_, fun f hf ↦ .inr hf⟩
  · intro f g hf hg
    rcases hf with hf | hf
    · exact .inl (.parent hf hg)
    · rw [parent?, Array.getElem?_eq_none hf] at hg
      cases hg
  · intro f name v hf hv id params body captured hhas
    rcases hf with hf | hf
    · exact ⟨h body (.bound hf hv hhas), .inl (.captured hf hv hhas)⟩
    · rw [bindings, Array.getElem?_eq_none hf] at hv
      cases hv

theorem not_exhausted_of_nestsAtMost {room : Nat} {stack : Stack}
    (hclosures : ∀ body, s.Offers scope body → body.depth ≤ D) (hdepth : form.depth ≤ D)
    (hroom : (count + 1) * D < room)
    (hstack : stack.holds (Host.slotsPerLevel * ((count + 1) * D) + 2))
    (hnests : NestsAtMost limit count room stack form scope s) :
    ¬ Exhausted ((evalWithin limit room stack form scope).run s) := by
  have hsucc : (count + 1) * D = count * D + D := Nat.succ_mul count D
  have hholds : stack.holds (2 * form.depth + (3 * (count * D) + 2)) := by
    apply Stack.holds_mono hstack
    change 2 * form.depth + (3 * (count * D) + 2) ≤ 3 * ((count + 1) * D) + 2
    omega
  -- the bodies beyond are not come to, so let them end with some other error
  let beyond : Nat → Stack → Step := fun _ _ _ _ ↦ throw (.notCallable .nil)
  let K : Stock := .shallow D fun f ↦ s.Leads scope f ∨ s.frames.size ≤ f
  have hbeyond : ∀ room stack form scope, K.Yields (beyond room stack form scope) :=
    fun _ _ _ _ ↦ Stock.runs_throw (by simp)
  have hruns : K.Yields (evalNesting limit beyond count room stack form scope) :=
    Stock.yields_evalNesting hbeyond count (.inl .self) hdepth (by omega) hholds
  rw [← hnests beyond]
  exact hruns.not_exhausted id (Store.fits_shallow hclosures)

theorem not_exhausted_of_callsNoClosure (hdepth : (form.depth : Int) ≤ limit)
    (hnone : CallsNoClosure limit form scope s) :
    ¬ Exhausted ((evaluate limit form scope).run s) := by
  let K : Stock := ⟨fun _ _ ↦ True, fun _ ↦ True, False⟩
  have hfits : s.Fits K :=
    ⟨fun _ _ _ _ ↦ trivial, fun _ _ _ _ _ _ _ _ _ _ ↦ ⟨trivial, trivial⟩, fun _ _ ↦ trivial⟩
  let beyond : Nat → Stack → Step := fun _ _ _ _ ↦ throw (.notCallable .nil)
  have hbeyond : ∀ room stack form scope, K.Yields (beyond room stack form scope) :=
    fun _ _ _ _ ↦ Stock.runs_throw (by simp)
  have hruns : K.Yields
      (evalCalling limit beyond (levels limit) (Host.stackFor limit form) form scope) :=
    Stock.yields_evalCalling (k := 0) (Nat.le_refl 2) (fun _ _ _ ↦ trivial)
      (fun _ room stack _ _ _ b inner _ _ ↦ hbeyond room stack b inner) trivial
      (Nat.le_refl form.depth) (lt_levels hdepth) (Host.holds_stackFor limit form)
  rw [← hnone beyond]
  exact hruns.not_exhausted id hfits

/-- A run in which never more than `count` bodies are active at a time is not exhausted, if the limit
allows `count + 1` times the depth of the form and of all bodies that it can come to: on every stack
with three slots for each of these levels and two, one without end among them, and so at the top
level, if the host can be made that large. A form that was read and calls no closure needs no higher
limit than the reader had. -/
theorem depth_budget :
    (∀ {D count : Nat} {limit : Int} {form : Form} {scope : FrameId} {s : Store},
      form.depth ≤ D → (∀ body, s.Offers scope body → body.depth ≤ D) →
      (((count + 1) * D : Nat) : Int) ≤ limit →
        (∀ stack : Stack, stack.holds (Host.slotsPerLevel * ((count + 1) * D) + 2) →
          NestsAtMost limit count (levels limit) stack form scope s →
          ¬ Exhausted ((evalWithin limit (levels limit) stack form scope).run s)) ∧
        ((count + 1) * D ≤ 6663 →
          NestsAtMost limit count (levels limit) (Host.stackFor limit form) form scope s →
          ¬ Exhausted ((evaluate limit form scope).run s))) ∧
    (∀ {stream rest : TokenStream} {limit : Int} {form : Form} {scope : FrameId} {s : Store},
      stream.readForm = (.ok form, rest) → stream.limit ≤ limit →
      CallsNoClosure limit form scope s → ¬ Exhausted ((evaluate limit form scope).run s)) := by
  constructor
  · intro D count limit form scope s hdepth hclosures hlimit
    have hroom : (count + 1) * D < levels limit := lt_levels hlimit
    refine ⟨fun stack ↦ not_exhausted_of_nestsAtMost hclosures hdepth hroom, fun hbound ↦ ?_⟩
    exact not_exhausted_of_nestsAtMost hclosures hdepth hroom
      (Host.holds_stackFor_of_le hlimit hbound form)
  · intro stream rest limit form scope s hread hlimit hnone
    obtain ⟨-, -, -, -, hdepth⟩ := Form.expression_of_readFrom .nil hread
    exact not_exhausted_of_callsNoClosure (Int.le_trans hdepth hlimit) hnone

/-- A session in which `f` calls `g`, whose body lists a number. -/
def Store.chained : Store :=
  (Store.initial.define sessionRoot "f"
      (.closure 1 [] (.list [.symbol "g"]) sessionRoot)).define sessionRoot "g"
    (.closure 2 [] (.list [.symbol "list", .number .one]) sessionRoot)

theorem Store.depth_of_offers_chained {body : Form} (h : chained.Offers sessionRoot body) :
    body.depth ≤ 1 := by
  obtain ⟨-, hv, hhas⟩ := h
  rcases mem_bindings_define hv with ⟨-, rfl⟩ | hv
  · cases hhas
    exact Nat.le_refl 1
  rcases mem_bindings_define hv with ⟨-, rfl⟩ | hv
  · cases hhas
    exact Nat.le_refl 1
  · exact absurd hhas (not_has_closure_initial hv)

/-- Two bodies are active at a time, and the form and both of them go down one level each: a limit of
three is enough, one of two is not. For the list by itself, one is enough. -/
theorem depth_budget_chained :
    (∀ body, Store.chained.Offers sessionRoot body → body.depth ≤ 1) ∧
      NestsAtMost 3 2 (levels 3) (Host.stackFor 3 (.list [.symbol "f"])) (.list [.symbol "f"])
        sessionRoot Store.chained ∧
      ¬ Exhausted ((evaluate 3 (.list [.symbol "f"]) sessionRoot).run Store.chained) ∧
      Exhausted ((evaluate 2 (.list [.symbol "f"]) sessionRoot).run Store.chained) ∧
      ¬ Exhausted
        ((evaluate 1 (.list [.symbol "list", .number .one]) sessionRoot).run Store.chained) := by
  have hnests : NestsAtMost 3 2 (levels 3) (Host.stackFor 3 (.list [.symbol "f"]))
      (.list [.symbol "f"]) sessionRoot Store.chained := by
    intro beyond
    let t := ((Store.chained.newFrame (some sessionRoot)).2.newFrame (some sessionRoot)).2
    have hwithin : (evalWithin 3 (levels 3) (Host.stackFor 3 (.list [.symbol "f"]))
        (.list [.symbol "f"]) sessionRoot).run Store.chained = .ok (.list [.number .one 0]) t := rfl
    rw [hwithin]
    rfl
  have hexhausted : Exhausted ((evaluate 2 (.list [.symbol "f"]) sessionRoot).run Store.chained) :=
    ⟨2, _, rfl⟩
  have hread : (TokenStream.mk [⟨.leftParen, ⟨1, 1⟩⟩, ⟨.symbol "list", ⟨1, 2⟩⟩,
      ⟨.number .one, ⟨1, 7⟩⟩, ⟨.rightParen, ⟨1, 8⟩⟩] none 1).readForm =
      (.ok (.list [.symbol "list", .number .one]), ⟨[], none, 1⟩) := by
    rfl
  have hnone : CallsNoClosure 1 (.list [.symbol "list", .number .one]) sessionRoot
      Store.chained := by
    intro body
    rfl
  obtain ⟨hbudget, hflat⟩ := depth_budget
  obtain ⟨-, htop⟩ := @hbudget 1 2 3 (.list [.symbol "f"]) sessionRoot Store.chained (by decide)
    (fun _ ↦ Store.depth_of_offers_chained) (by decide)
  exact ⟨fun _ ↦ Store.depth_of_offers_chained, hnests, htop (by decide) hnests, hexhausted,
    hflat hread (by decide) hnone⟩

end Budget

end MiniLisp
