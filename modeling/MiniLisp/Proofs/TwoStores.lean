import MiniLisp.Proofs.Framing
import MiniLisp.Proofs.TwoCalls

/-!
# Stores that differ in the values of their bindings

Two stores with the same frames, in which the same names are bound in the same order to values that
correspond, answer every lookup alike, and stay so through definitions, new frames and written lines.
-/

namespace MiniLisp

variable {V : Value → Value → Prop}

/-- The frames bind the same names, to values that correspond. -/
structure Frame.Alike (V : Value → Value → Prop) (a b : Frame) : Prop where
  parent : a.parent = b.parent
  bindings : List.Forall₂ (fun p q ↦ p.1 = q.1 ∧ V p.2 q.2) a.bindings b.bindings

theorem any_name_eq {ps qs : List (String × Value)}
    (h : List.Forall₂ (fun p q ↦ p.1 = q.1 ∧ V p.2 q.2) ps qs) (name : String) :
    (ps.any (·.1 == name)) = qs.any (·.1 == name) := by
  induction h with
  | nil => rfl
  | cons hpq _ ih => rw [List.any_cons, List.any_cons, hpq.1, ih]

theorem lookup_alike {ps qs : List (String × Value)}
    (h : List.Forall₂ (fun p q ↦ p.1 = q.1 ∧ V p.2 q.2) ps qs) (name : String) :
    Option.Rel V (ps.lookup name) (qs.lookup name) := by
  induction h with
  | nil => exact .none
  | @cons p q ps qs hpq _ ih =>
      obtain ⟨n, v⟩ := p
      obtain ⟨m, w⟩ := q
      obtain ⟨rfl, hvw⟩ := hpq
      rw [List.lookup_cons, List.lookup_cons]
      cases name == n with
      | true => exact .some hvw
      | false => exact ih

theorem bindName_alike {ps qs : List (String × Value)} {v w : Value}
    (h : List.Forall₂ (fun p q ↦ p.1 = q.1 ∧ V p.2 q.2) ps qs) (name : String) (hvw : V v w) :
    List.Forall₂ (fun p q ↦ p.1 = q.1 ∧ V p.2 q.2) (bindName name v ps) (bindName name w qs) := by
  induction h with
  | nil => exact .cons ⟨rfl, hvw⟩ .nil
  | @cons p q ps qs hpq htail ih =>
      obtain ⟨n, v'⟩ := p
      obtain ⟨m, w'⟩ := q
      obtain ⟨rfl, hvw'⟩ := hpq
      rw [bindName, bindName]
      split
      · exact .cons ⟨rfl, hvw⟩ htail
      · exact .cons ⟨rfl, hvw'⟩ ih

namespace Store

/-- The stores have the same frames but for the values in them, and the same output. -/
structure Alike (V : Value → Value → Prop) (s t : Store) : Prop where
  frames : ∀ g : FrameId, Option.Rel (Frame.Alike V) s.frames[g]? t.frames[g]?
  nextId : s.nextId = t.nextId
  output : s.output = t.output

namespace Alike

variable {s t : Store}

theorem refl (hV : ∀ v, V v v) (s : Store) : s.Alike V s := by
  refine ⟨?_, rfl, rfl⟩
  intro g
  cases s.frames[g]? with
  | none => exact .none
  | some frame =>
      exact .some ⟨rfl, List.forall₂_same.mpr fun binding _ ↦ ⟨rfl, hV binding.2⟩⟩

theorem size_le_iff (h : s.Alike V t) (g : FrameId) :
    s.frames.size ≤ g ↔ t.frames.size ≤ g := by
  have hg := h.frames g
  rw [← Array.getElem?_eq_none_iff, ← Array.getElem?_eq_none_iff]
  generalize s.frames[g]? = a at hg ⊢
  generalize t.frames[g]? = b at hg ⊢
  cases hg <;> simp

theorem size (h : s.Alike V t) : s.frames.size = t.frames.size :=
  Nat.le_antisymm ((h.size_le_iff _).mpr (Nat.le_refl _)) ((h.size_le_iff _).mp (Nat.le_refl _))

theorem chainFrom (h : s.Alike V t) (room : Nat) (f : FrameId) :
    s.chainFrom room f = t.chainFrom room f := by
  induction room generalizing f with
  | zero => rfl
  | succ room ih =>
      have hf := h.frames f
      rw [Store.chainFrom, Store.chainFrom]
      generalize s.frames[f]? = a at hf
      generalize t.frames[f]? = b at hf
      cases hf with
      | none => rfl
      | @some a b hab =>
          obtain ⟨parent, bs⟩ := a
          obtain ⟨parent', bs'⟩ := b
          obtain rfl : parent = parent' := hab.parent
          cases parent with
          | none => rfl
          | some g => simp only [ih g]

theorem bindings (h : s.Alike V t) (f : FrameId) :
    List.Forall₂ (fun p q ↦ p.1 = q.1 ∧ V p.2 q.2) (s.bindings f) (t.bindings f) := by
  have hf := h.frames f
  rw [Store.bindings, Store.bindings]
  generalize s.frames[f]? = a at hf
  generalize t.frames[f]? = b at hf
  cases hf with
  | none => exact .nil
  | some hab => exact hab.bindings

theorem find? (h : s.Alike V t) (f : FrameId) (name : String) :
    s.find? f name = t.find? f name := by
  have hnames : (fun g ↦ (s.bindings g).any (·.1 == name)) =
      fun g ↦ (t.bindings g).any (·.1 == name) := by
    funext g
    exact any_name_eq (h.bindings g) name
  rw [Store.find?, Store.find?, chain, chain, h.chainFrom, hnames]

theorem lookup? (h : s.Alike V t) (f : FrameId) (name : String) :
    Option.Rel V (s.lookup? f name) (t.lookup? f name) := by
  rw [Store.lookup?, Store.lookup?, h.find?]
  cases t.find? f name with
  | none => exact .none
  | some g => exact lookup_alike (h.bindings g) name

theorem define (h : s.Alike V t) (f : FrameId) (name : String) {v w : Value} (hvw : V v w) :
    (s.define f name v).Alike V (t.define f name w) := by
  refine ⟨?_, h.nextId, h.output⟩
  intro g
  have hg := h.frames g
  rw [frames_define, frames_define]
  generalize s.frames[g]? = a at hg
  generalize t.frames[g]? = b at hg
  cases hg with
  | none => exact .none
  | some hab =>
      apply Option.Rel.some
      split
      · exact ⟨hab.parent, bindName_alike hab.bindings name hvw⟩
      · exact hab

theorem newFrame (h : s.Alike V t) (parent : Option FrameId) :
    (s.newFrame parent).2.Alike V (t.newFrame parent).2 := by
  refine ⟨?_, h.nextId, h.output⟩
  intro g
  rw [Store.newFrame, Store.newFrame, Array.getElem?_push, Array.getElem?_push, h.size]
  split
  · exact .some ⟨rfl, .nil⟩
  · exact h.frames g

theorem defineAll (h : s.Alike V t) (f : FrameId) (names : List String) {vs ws : List Value}
    (hvws : List.Forall₂ V vs ws) :
    (s.defineAll f (names.zip vs)).Alike V (t.defineAll f (names.zip ws)) := by
  induction hvws generalizing s t names with
  | nil => rwa [List.zip_nil_right]
  | cons hvw _ ih =>
      cases names with
      | nil => exact h
      | cons name names => exact ih (h.define f name hvw) names

theorem write (h : s.Alike V t) (home : FrameId) (text : String) :
    (s.write home text).Alike V (t.write home text) := by
  refine ⟨h.frames, h.nextId, ?_⟩
  rw [Store.write, Store.write, h.output]

end Alike

end Store

namespace Correspondence

/-- The correspondence of runs that comes from those of numbers, values and errors. -/
def ofValues (number : Double → Double → Prop) (V : Value → Value → Prop)
    (error : EvalError → EvalError → Prop) : Correspondence where
  number := number
  value := V
  store := Store.Alike V
  error := error

variable {N : Double → Double → Prop} {error : EvalError → EvalError → Prop}

theorem runs_lookup (scope : FrameId) (name : String)
    (hunbound : error (.unboundSymbol name) (.unboundSymbol name)) :
    (ofValues N V error).Runs V (Eval.lookup scope name) (Eval.lookup scope name) := by
  intro s t hst
  have hfound := Store.Alike.lookup? hst scope name
  rw [Eval.run_lookup, Eval.run_lookup]
  generalize s.lookup? scope name = a at hfound
  generalize t.lookup? scope name = b at hfound
  cases hfound with
  | none => exact ⟨hunbound, hst⟩
  | some hvw => exact ⟨hvw, hst⟩

theorem runs_define (scope : FrameId) (name : String) {v w : Value} (hvw : V v w) :
    (ofValues N V error).Runs Eq (Eval.define scope name v) (Eval.define scope name w) :=
  fun _ _ hst ↦ ⟨rfl, Store.Alike.define hst scope name hvw⟩

theorem runs_freshId : (ofValues N V error).Runs Eq Eval.freshId Eval.freshId :=
  fun _ _ hst ↦ ⟨hst.nextId, hst.frames, congrArg (· + 1) hst.nextId, hst.output⟩

theorem runs_number (hnan : ∀ {x y}, N x y → x.isNaN = y.isNaN)
    (hnumber : ∀ {x y} mark, N x y → V (.number x mark) (.number y mark)) {x y : Double}
    (hxy : N x y) : (ofValues N V error).Runs V (Eval.number x) (Eval.number y) := by
  rw [Eval.number, Eval.number, hnan hxy]
  split
  · apply runs_freshId.bind
    rintro mark _ rfl
    exact runs_pure (hnumber mark hxy)
  · exact runs_pure (hnumber 0 hxy)

theorem runs_extend (scope : FrameId) (names : List String) {vs ws : List Value}
    (hvws : List.Forall₂ V vs ws) :
    (ofValues N V error).Runs Eq (Eval.extend scope (names.zip vs))
      (Eval.extend scope (names.zip ws)) := by
  intro s t hst
  have hsize := Store.Alike.size hst
  refine ⟨hsize, ?_⟩
  have hmade :=
    Store.Alike.defineAll (Store.Alike.newFrame hst (some scope)) s.frames.size names hvws
  change ((s.newFrame (some scope)).2.defineAll s.frames.size (names.zip vs)).Alike V
    ((t.newFrame (some scope)).2.defineAll t.frames.size (names.zip ws))
  rwa [← hsize]

end Correspondence

end MiniLisp
