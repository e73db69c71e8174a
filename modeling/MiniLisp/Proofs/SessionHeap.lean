import MiniLisp.Proofs.Sessions
import MiniLisp.Proofs.ViewedRuns

/-!
# The heap of a session

Whatever texts a session has run, and wherever they failed, the parents of every frame lead to the
root, closures capture frames that are there, the names in frames and values are names that a text
can spell, and the root frame binds the native functions' names. So the walk of a lookup from frame
to frame comes to an end.
-/

namespace MiniLisp

/-- Some text has the name among its tokens, and it is no literal. -/
structure Lexer.Bindable (name : String) : Prop where
  lexed : ∃ source, ∃ t ∈ (lex source).tokens, t.token = .symbol name
  literal : name ∉ ["true", "false", "nil"]

/-- The law that names can be bound. -/
def Law.lexical : Law := .naming Lexer.Bindable fun _ ↦ True

namespace Store

/-- The parents lead from the frame to the root in that many steps. -/
inductive Ascends (s : Store) : FrameId → Nat → Prop
  | root {bs : List (String × Value)} (h : s.frames[sessionRoot]? = some ⟨none, bs⟩) :
      Ascends s sessionRoot 0
  | parent {f g : FrameId} {bs : List (String × Value)} {n : Nat}
      (h : s.frames[f]? = some ⟨some g, bs⟩) (hg : Ascends s g n) : Ascends s f (n + 1)

/-- The walk from the frame along the parents ends at the first frame that binds the name, if any
of them does. -/
inductive Walks (s : Store) (name : String) : FrameId → Option FrameId → Prop
  | here {f : FrameId} {frame : Frame} (h : s.frames[f]? = some frame)
      (hname : (frame.bindings.lookup name).isSome) : Walks s name f (some f)
  | parent {f g : FrameId} {bs : List (String × Value)} {found : Option FrameId}
      (h : s.frames[f]? = some ⟨some g, bs⟩) (hname : bs.lookup name = none)
      (hg : Walks s name g found) : Walks s name f found
  | nowhere {f : FrameId} {bs : List (String × Value)} (h : s.frames[f]? = some ⟨none, bs⟩)
      (hname : bs.lookup name = none) : Walks s name f none

/-- All that a session can count on in its heap. The last field says that lookups come to an end,
wherever they begin. -/
structure WellFormed (s : Store) : Prop where
  ascends : ∀ f < s.frames.size, ∃ n, s.Ascends f n
  bindings : ∀ (f : FrameId) (name : String) (v : Value), (name, v) ∈ s.bindings f →
    Lexer.Bindable name ∧ v.Obeys Law.lexical s.frames.size
  natives : ∀ op : Primitive, ((s.bindings sessionRoot).lookup op.name).isSome
  walks : ∀ f < s.frames.size, ∀ name, s.Walks name f (s.find? f name)

end Store

namespace View

/-- Every frame and every identity is seen as itself. -/
def same : View where
  frame f := f
  identity id := id
  hidden _ := False
  live _ := True
  lines := []
  lines' := []
  strictMono_frame := strictMono_id
  injective_identity := Function.injective_id
  identity_zero := rfl

theorem allows_same (form : Form) : same.Allows form := fun _ hhidden ↦ hhidden.elim

section Initial

theorem eq_of_frame_root {f : FrameId} {a : Frame}
    (h : (Store.empty.newFrame none).2.frames[f]? = some a) : f = sessionRoot ∧ a = ⟨none, []⟩ := by
  rw [Store.frames_newFrame] at h
  split_ifs at h with hf
  · exact ⟨hf, (Option.some.inj h).symm⟩
  · cases h

/-- A root frame that binds nothing yet. -/
theorem shows_root : same.Shows (Store.empty.newFrame none).2 (Store.empty.newFrame none).2 := by
  have hrooted : (Store.empty.newFrame none).2.Rooted := by
    refine ⟨fun f g hg ↦ ?_, fun f hf _ ↦ Nat.lt_one_iff.mp hf⟩
    obtain ⟨bs, hbs⟩ := Store.exists_frame_of_parent? hg
    cases (eq_of_frame_root hbs).2
  refine ⟨hrooted, hrooted, ?_, fun _ _ ↦ trivial, fun _ ↦ rfl, fun _ ↦ rfl, [], rfl, rfl⟩
  intro f a _ ha
  obtain ⟨-, rfl⟩ := eq_of_frame_root ha
  exact ⟨_, ha, rfl, fun _ h ↦ (Option.some_ne_none _ h.symm).elim, fun _ _ ↦ .none⟩

theorem shows_initial : same.Shows Store.initial Store.initial := by
  have hnatives : List.Forall₂ (same.Sees (Store.empty.newFrame none).2.extent)
      (Primitive.all.map fun op ↦ .native op sessionRoot)
      (Primitive.all.map fun op ↦ .native op sessionRoot) := by
    rw [List.forall₂_map_left_iff, List.forall₂_map_right_iff, List.forall₂_same]
    exact fun op _ ↦ .native op sessionRoot
  have hall := shows_root.defineAll sessionRoot (Primitive.all.map (·.name)) rfl hnatives
  rwa [List.zip_map'] at hall

end Initial

end View

namespace Store.Reachable

variable {s : Store} (h : s.Reachable)

include h

/-- What a session reaches can be compared with itself: nothing in it refers to what is not there. -/
theorem shows_same : View.same.Shows s s ∧ Store.initial.extent ≤ s.extent := by
  induction h with
  | initial => exact ⟨View.shows_initial, le_refl _⟩
  | @interpret s _ limits source scope hscope ih =>
      obtain ⟨hshows, hle⟩ := ih
      obtain ⟨forms, hforms⟩ := Run.exists_storeAfter_eq limits source scope s
      have hyields : View.same.Yields s.extent (evaluateForms limits.depth scope .nil forms)
          (evaluateForms limits.depth scope .nil forms) :=
        View.yields_evaluateForms limits.depth trivial hscope .nil
          fun form _ ↦ View.allows_same form
      obtain ⟨hafter, hle'⟩ := hyields.storeAfter hshows (le_refl _)
      rw [hforms]
      exact ⟨hafter, le_trans hle hle'⟩

theorem rooted : s.Rooted := h.shows_same.1.rooted

theorem root_lt_size : sessionRoot < s.frames.size := by
  have hinitial : sessionRoot < Store.initial.frames.size := by
    rw [size_initial]
    decide
  exact Nat.lt_of_lt_of_le hinitial h.shows_same.2.1

end Store.Reachable

section Chains

namespace Store

variable {s t : Store} {f : FrameId}

/-- Induction on the number of the frame; a parent has a smaller one. -/
theorem Rooted.exists_ascends (h : s.Rooted) (hf : f < s.frames.size) : ∃ n, s.Ascends f n := by
  induction f using Nat.strongRecOn with
  | ind f ih =>
      obtain ⟨⟨parent, bs⟩, hframe⟩ : ∃ frame, s.frames[f]? = some frame :=
        ⟨_, Array.getElem?_eq_getElem hf⟩
      cases parent with
      | none =>
          obtain rfl := h.root f hf (parent?_of_frame hframe)
          exact ⟨0, .root hframe⟩
      | some g =>
          have hlt : g < f := h.parent f g (parent?_of_frame hframe)
          obtain ⟨n, hn⟩ := ih g hlt (Nat.lt_trans hlt hf)
          exact ⟨n + 1, .parent hframe hn⟩

/-- The walk ends with what a lookup finds. -/
theorem Ascends.walks {n : Nat} (h : s.Ascends f n) (hs : s.Rooted) (name : String) :
    s.Walks name f (s.find? f name) := by
  induction h with
  | root hframe =>
      rw [find?_of_root hframe]
      split_ifs with hname
      · exact .here hframe hname
      · exact .nowhere hframe (Option.not_isSome_iff_eq_none.mp hname)
  | parent hframe _ ih =>
      rw [hs.find?_of_parent? (parent?_of_frame hframe), bindings_of_frame hframe]
      split_ifs with hname
      · exact .here hframe hname
      · exact .parent hframe (Option.not_isSome_iff_eq_none.mp hname) ih

/-- What is bound in a frame stays bound there. -/
theorem Framed.isSome_lookup {scope : FrameId} {names : String → Prop} (h : s.Framed scope names t)
    {name : String} (hname : ((s.bindings f).lookup name).isSome) :
    ((t.bindings f).lookup name).isSome := by
  cases hframe : s.frames[f]? with
  | none => simp [bindings, hframe] at hname
  | some before =>
      obtain ⟨after, hafter, hextended, -⟩ := h f before hframe
      rw [bindings_of_frame hframe] at hname
      rw [bindings_of_frame hafter]
      exact hextended.bound name hname

end Store

end Chains

namespace Law

theorem sound_lexical : lexical.Sound :=
  sound_naming fun op ↦
    ⟨⟨op.name, ⟨.symbol op.name, ⟨1, 1⟩⟩, by cases op <;> decide +kernel, rfl⟩,
      by cases op <;> decide⟩

theorem allows_lexical (nesting : Int) (source : String) : lexical.Allows nesting source := by
  have hquote : Lexer.Bindable Keyword.quote.name :=
    ⟨⟨"quote", ⟨.symbol "quote", ⟨1, 1⟩⟩, by decide +kernel, rfl⟩, by decide⟩
  refine allows_naming hquote ?_ nesting
  intro t ht name htoken hliteral
  refine ⟨⟨source, t, ht, htoken⟩, ?_⟩
  unfold Form.ofName at hliteral
  split_ifs at hliteral with htrue hfalse hnil
  simp [htrue, hfalse, hnil]

end Law

namespace Store.Reachable

variable {s : Store} (h : s.Reachable)

include h

theorem obeys_lexical : s.Obeys Law.lexical :=
  Law.sound_lexical.obeys_of_reachable Law.allows_lexical h

theorem binds_natives (op : Primitive) : ((s.bindings sessionRoot).lookup op.name).isSome := by
  induction h with
  | initial => cases op <;> decide +kernel
  | @interpret s _ limits source scope _ ih =>
      obtain ⟨forms, hforms⟩ := Run.exists_storeAfter_eq limits source scope s
      rw [hforms]
      exact (Run.evolves_evaluateForms limits.depth scope .nil forms s).frames.isSome_lookup ih

theorem wellFormed : s.WellFormed where
  ascends _ hf := h.rooted.exists_ascends hf
  bindings := h.obeys_lexical.bindings
  natives := h.binds_natives
  walks f hf name := by
    obtain ⟨n, hn⟩ := h.rooted.exists_ascends hf
    exact hn.walks h.rooted name

end Store.Reachable

/-- The heap of a session is well formed between any two of its texts, and so is what a text
returns. -/
theorem session_heap {s : Store} (h : s.Reachable) :
    s.WellFormed ∧ ∀ (limits : Limits) (source : String) (scope : FrameId),
      scope < s.frames.size → ∀ v t, (interpret limits source scope).run s = .ok v t →
        v.Obeys Law.lexical t.frames.size := by
  refine ⟨h.wellFormed, ?_⟩
  intro limits source scope hscope v t hrun
  have hends := Law.sound_lexical.textEnds_interpret
    (Law.allows_lexical limits.nesting source) h.obeys_lexical hscope
  rw [hrun] at hends
  cases hends with
  | value _ _ hv => exact hv

set_option maxRecDepth 20000 in
/-- The text fails at its second operand; what the first one defined is there for the next text. -/
theorem session_heap_miscalled :
    let s := (interpret ⟨9, 9⟩ "(list (define k (lambda (x) x)) (k))" sessionRoot).storeAfter
      Store.initial
    let v := Value.list [.closure 1 ["x"] (.symbol "x") sessionRoot]
    s.Reachable ∧ s.WellFormed ∧ ∃ t,
      (interpret ⟨9, 9⟩ "(list k)" sessionRoot).run s = .ok v t ∧
        v.Obeys Law.lexical t.frames.size := by
  have htokens : tokenize "(list (define k (lambda (x) x)) (k))" = .ok [⟨.leftParen, ⟨1, 1⟩⟩,
      ⟨.symbol "list", ⟨1, 2⟩⟩, ⟨.leftParen, ⟨1, 7⟩⟩, ⟨.symbol "define", ⟨1, 8⟩⟩,
      ⟨.symbol "k", ⟨1, 15⟩⟩, ⟨.leftParen, ⟨1, 17⟩⟩, ⟨.symbol "lambda", ⟨1, 18⟩⟩,
      ⟨.leftParen, ⟨1, 25⟩⟩, ⟨.symbol "x", ⟨1, 26⟩⟩, ⟨.rightParen, ⟨1, 27⟩⟩, ⟨.symbol "x", ⟨1, 29⟩⟩,
      ⟨.rightParen, ⟨1, 30⟩⟩, ⟨.rightParen, ⟨1, 31⟩⟩, ⟨.leftParen, ⟨1, 33⟩⟩, ⟨.symbol "k", ⟨1, 34⟩⟩,
      ⟨.rightParen, ⟨1, 35⟩⟩, ⟨.rightParen, ⟨1, 36⟩⟩] := by decide +kernel
  have hcall := interpret_single ⟨9, 9⟩ htokens rfl sessionRoot
  have htokens' : tokenize "(list k)" = .ok [⟨.leftParen, ⟨1, 1⟩⟩, ⟨.symbol "list", ⟨1, 2⟩⟩,
      ⟨.symbol "k", ⟨1, 7⟩⟩, ⟨.rightParen, ⟨1, 8⟩⟩] := by decide +kernel
  have hlist := interpret_single ⟨9, 9⟩ htokens' rfl sessionRoot
  intro s v
  have hreachable : s.Reachable :=
    .interpret .initial ⟨9, 9⟩ _ Store.Reachable.initial.root_lt_size
  have hrun : ∃ t, (interpret ⟨9, 9⟩ "(list k)" sessionRoot).run s = .ok v t := by
    subst s
    rw [hcall, hlist]
    exact ⟨_, rfl⟩
  obtain ⟨t, hrun⟩ := hrun
  obtain ⟨hwell, hreturns⟩ := session_heap hreachable
  exact ⟨hreachable, hwell, t, hrun,
    hreturns ⟨9, 9⟩ "(list k)" sessionRoot hreachable.root_lt_size v t hrun⟩

end MiniLisp
