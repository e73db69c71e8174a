import MiniLisp.Proofs.Views
import MiniLisp.Repl

/-!
# Stores in a view

A store is rooted if the parents of every frame lead to frame zero. Lookups in such a store go from
frame to frame until one binds the name. A store is seen as another one if its live frames correspond
to frames of the other that bind the same names, but for the hidden ones, to values that correspond.
Lookups are then answered alike, and definitions, new frames and lines keep it so.
-/

namespace MiniLisp

theorem any_eq_isSome_lookup (name : String) (bs : List (String × Value)) :
    (bs.any (·.1 == name)) = (bs.lookup name).isSome := by
  induction bs with
  | nil => rfl
  | cons b bs ih =>
      obtain ⟨n, v⟩ := b
      rw [List.any_cons, List.lookup_cons, ih]
      by_cases h : n = name
      · simp [h]
      · simp [h, beq_false_of_ne (Ne.symm h)]

namespace Store

/-- A frame is younger than its parent, and only the first frame has none. -/
structure Rooted (s : Store) : Prop where
  parent : ∀ f g : FrameId, s.parent? f = some g → g < f
  root : ∀ f : FrameId, f < s.frames.size → s.parent? f = none → f = sessionRoot

variable {s : Store} {f g : FrameId}

theorem parent?_of_frame {frame : Frame} (h : s.frames[f]? = some frame) :
    s.parent? f = frame.parent := by
  rw [parent?, h, Option.bind_some]

theorem bindings_of_frame {frame : Frame} (h : s.frames[f]? = some frame) :
    s.bindings f = frame.bindings := by
  rw [bindings, h]

theorem exists_frame_of_parent? (h : s.parent? f = some g) :
    ∃ bs, s.frames[f]? = some ⟨some g, bs⟩ := by
  obtain ⟨frame, hframe, hparent⟩ := Option.bind_eq_some_iff.mp h
  obtain ⟨parent, bs⟩ := frame
  obtain rfl : parent = some g := hparent
  exact ⟨bs, hframe⟩

/-- The room for a chain does not matter if there is enough of it. -/
theorem chainFrom_eq (h : ∀ f g : FrameId, s.parent? f = some g → g < f) {room room' : Nat}
    (hroom : f < room) (hroom' : f < room') : s.chainFrom room f = s.chainFrom room' f := by
  induction room generalizing f room' with
  | zero => exact absurd hroom (Nat.not_lt_zero f)
  | succ room ih =>
      obtain ⟨room', rfl⟩ := Nat.exists_eq_succ_of_ne_zero (Nat.ne_zero_of_lt hroom')
      rw [chainFrom, chainFrom]
      cases hframe : s.frames[f]? with
      | none => rfl
      | some frame =>
          obtain ⟨parent, bs⟩ := frame
          cases parent with
          | none => rfl
          | some g =>
              have hlt : g < f := h f g (parent?_of_frame hframe)
              have hrest : s.chainFrom room g = s.chainFrom room' g :=
                ih (Nat.lt_of_lt_of_le hlt (Nat.le_of_lt_succ hroom))
                  (Nat.lt_of_lt_of_le hlt (Nat.le_of_lt_succ hroom'))
              exact congrArg (f :: ·) hrest

theorem chain_of_parent? (h : ∀ f g : FrameId, s.parent? f = some g → g < f)
    (hparent : s.parent? f = some g) : s.chain f = f :: s.chain g := by
  obtain ⟨bs, hframe⟩ := exists_frame_of_parent? hparent
  rw [chain, chainFrom, hframe]
  exact congrArg (f :: ·) (chainFrom_eq h (h f g hparent) (Nat.lt_succ_self g))

theorem chain_of_root {bs : List (String × Value)} (hframe : s.frames[f]? = some ⟨none, bs⟩) :
    s.chain f = [f] := by
  rw [chain, chainFrom, hframe]

namespace Rooted

variable (h : s.Rooted)

include h

theorem find?_of_parent? (hparent : s.parent? f = some g) (name : String) :
    s.find? f name =
      if ((s.bindings f).lookup name).isSome then some f else s.find? g name := by
  rw [find?, chain_of_parent? h.parent hparent, List.find?_cons, any_eq_isSome_lookup]
  cases ((s.bindings f).lookup name).isSome <;> rfl

theorem lookup?_of_parent? (hparent : s.parent? f = some g) (name : String) :
    s.lookup? f name = ((s.bindings f).lookup name).or (s.lookup? g name) := by
  rw [lookup?, h.find?_of_parent? hparent]
  cases hv : (s.bindings f).lookup name with
  | none => rfl
  | some v => simpa using hv

end Rooted

theorem find?_of_root {bs : List (String × Value)} (hframe : s.frames[f]? = some ⟨none, bs⟩)
    (name : String) : s.find? f name = if (bs.lookup name).isSome then some f else none := by
  rw [find?, chain_of_root hframe, List.find?_cons, any_eq_isSome_lookup,
    bindings_of_frame hframe]
  cases (bs.lookup name).isSome <;> rfl

theorem lookup?_of_root {bs : List (String × Value)} (hframe : s.frames[f]? = some ⟨none, bs⟩)
    (name : String) : s.lookup? f name = bs.lookup name := by
  rw [lookup?, find?_of_root hframe]
  cases hv : bs.lookup name with
  | none => rfl
  | some v => simpa [bindings_of_frame hframe] using hv

theorem extent_define (s : Store) (f : FrameId) (name : String) (v : Value) :
    (s.define f name v).extent = s.extent := by
  rw [extent, size_define]
  rfl

theorem extent_defineAll (s : Store) (f : FrameId) (pairs : List (String × Value)) :
    (s.defineAll f pairs).extent = s.extent := by
  induction pairs generalizing s with
  | nil => rfl
  | cons pair pairs ih => rw [defineAll, List.foldl_cons, ← defineAll, ih, extent_define]

theorem size_newFrame (s : Store) (parent : Option FrameId) :
    (s.newFrame parent).2.frames.size = s.frames.size + 1 :=
  Array.size_push ..

theorem extent_newFrame (s : Store) (parent : Option FrameId) :
    (s.newFrame parent).2.extent = ⟨s.frames.size + 1, s.nextId⟩ := by
  rw [extent, size_newFrame]
  rfl

theorem le_extent_newFrame (s : Store) (parent : Option FrameId) :
    s.extent ≤ (s.newFrame parent).2.extent := by
  rw [extent_newFrame]
  exact ⟨Nat.le_succ s.frames.size, Nat.le_refl s.nextId⟩

namespace Rooted

theorem of_frames_eq {t : Store} (h : s.Rooted) (hframes : t.frames = s.frames) : t.Rooted := by
  have hparent : ∀ f, t.parent? f = s.parent? f := fun f ↦ by rw [parent?, parent?, hframes]
  refine ⟨fun f g hg ↦ h.parent f g (hparent f ▸ hg), fun f hf hroot ↦ ?_⟩
  rw [hframes] at hf
  exact h.root f hf (hparent f ▸ hroot)

theorem define (h : s.Rooted) (f : FrameId) (name : String) (v : Value) :
    (s.define f name v).Rooted := by
  refine ⟨fun g parent hparent ↦ ?_, fun g hg hroot ↦ ?_⟩
  · rw [parent?_define] at hparent
    exact h.parent g parent hparent
  · rw [size_define] at hg
    rw [parent?_define] at hroot
    exact h.root g hg hroot

theorem newFrame (h : s.Rooted) {scope : FrameId} (hscope : scope < s.frames.size) :
    (s.newFrame (some scope)).2.Rooted := by
  refine ⟨fun f g hg ↦ ?_, fun f hf hroot ↦ ?_⟩
  · exact lt_of_parent?_newFrame h.parent (fun g hg ↦ Option.some.inj hg ▸ hscope) hg
  · rw [parent?, frames_newFrame] at hroot
    by_cases hlast : f = s.frames.size
    · rw [if_pos hlast] at hroot
      cases hroot
    · rw [if_neg hlast] at hroot
      rw [size_newFrame] at hf
      exact h.root f (Nat.lt_of_le_of_ne (Nat.le_of_lt_succ hf) hlast) hroot

end Rooted

end Store

namespace View

variable {V : View} {n m : Extent} {s t : Store} {f : FrameId} {v w : Value}

/-- The parents correspond, and the names that are not hidden are bound to values that do. -/
structure ShowsFrame (V : View) (n : Extent) (a b : Frame) : Prop where
  parent : b.parent = a.parent.map V.frame
  live : ∀ g, a.parent = some g → V.live g
  bindings : ∀ name, ¬ V.hidden name →
    Option.Rel (V.Sees n) (a.bindings.lookup name) (b.bindings.lookup name)

theorem ShowsFrame.mono {a b : Frame} (h : V.ShowsFrame n a b) (hle : n ≤ m) :
    V.ShowsFrame m a b := by
  refine ⟨h.parent, h.live, fun name hname ↦ ?_⟩
  have hv := h.bindings name hname
  generalize a.bindings.lookup name = x at hv
  generalize b.bindings.lookup name = y at hv
  cases hv with
  | none => exact .none
  | some hvw => exact .some (hvw.mono hle)

theorem ShowsFrame.bindName {a b : Frame} (h : V.ShowsFrame n a b) (name : String)
    (hvw : V.Sees n v w) :
    V.ShowsFrame n { a with bindings := MiniLisp.bindName name v a.bindings }
      { b with bindings := MiniLisp.bindName name w b.bindings } := by
  refine ⟨h.parent, h.live, fun other hother ↦ ?_⟩
  rw [lookup_bindName, lookup_bindName]
  split
  · exact .some hvw
  · exact h.bindings other hother

/-- The first store is seen as the second: what either run makes next will correspond as well, and
both have written the same since the view was taken. -/
structure Shows (V : View) (s t : Store) : Prop where
  rooted : s.Rooted
  rooted' : t.Rooted
  frames : ∀ (f : FrameId) (a : Frame), V.live f → s.frames[f]? = some a →
    ∃ b, t.frames[V.frame f]? = some b ∧ V.ShowsFrame s.extent a b
  live : ∀ f, s.frames.size ≤ f → V.live f
  nextFrame : ∀ k, V.frame (s.frames.size + k) = t.frames.size + k
  nextId : ∀ k, V.identity (s.nextId + k) = t.nextId + k
  output : ∃ more, s.output.toList = V.lines ++ more ∧ t.output.toList = V.lines' ++ more

namespace Shows

variable (h : V.Shows s t)

include h

/-- Induction along the chain of frames; the parents correspond on every step of it. -/
theorem lookup? (hlive : V.live f) (hf : f < s.frames.size) {name : String}
    (hname : ¬ V.hidden name) :
    Option.Rel (V.Sees s.extent) (s.lookup? f name) (t.lookup? (V.frame f) name) := by
  induction f using Nat.strongRecOn with
  | ind f ih =>
      have hframe := Array.getElem?_eq_getElem hf
      obtain ⟨b, hframe', hshows⟩ := h.frames f _ hlive hframe
      generalize s.frames[f] = a at hframe hshows
      have hbindings := hshows.bindings name hname
      have hparent' := hshows.parent
      have hlive' := hshows.live
      obtain ⟨parent, bs⟩ := a
      obtain ⟨parent', bs'⟩ := b
      cases parent with
      | none =>
          obtain rfl : parent' = none := hparent'
          rw [Store.lookup?_of_root hframe, Store.lookup?_of_root hframe']
          exact hbindings
      | some g =>
          obtain rfl : parent' = some (V.frame g) := hparent'
          have hg : s.parent? f = some g := Store.parent?_of_frame hframe
          have hlt : g < f := h.rooted.parent f g hg
          have houter := ih g hlt (hlive' g rfl) (Nat.lt_trans hlt hf)
          rw [h.rooted.lookup?_of_parent? hg,
            h.rooted'.lookup?_of_parent? (Store.parent?_of_frame hframe'),
            Store.bindings_of_frame hframe, Store.bindings_of_frame hframe']
          generalize bs.lookup name = x at hbindings
          generalize bs'.lookup name = y at hbindings
          cases hbindings with
          | none => exact houter
          | some hvw => exact .some hvw

theorem define (f : FrameId) (name : String) (hvw : V.Sees s.extent v w) :
    V.Shows (s.define f name v) (t.define (V.frame f) name w) where
  rooted := h.rooted.define f name v
  rooted' := h.rooted'.define (V.frame f) name w
  frames := by
    intro g a hlive ha
    rw [Store.frames_define] at ha
    obtain ⟨before, hbefore, rfl⟩ := Option.map_eq_some_iff.mp ha
    obtain ⟨b, hb, hshows⟩ := h.frames g before hlive hbefore
    rw [Store.extent_define, Store.frames_define, hb, Option.map_some]
    by_cases hfg : f = g
    · refine ⟨_, rfl, ?_⟩
      rw [if_pos hfg, if_pos (congrArg V.frame hfg)]
      exact hshows.bindName name hvw
    · refine ⟨_, rfl, ?_⟩
      rw [if_neg hfg, if_neg (V.strictMono_frame.injective.ne hfg)]
      exact hshows
  live := by
    rw [Store.size_define]
    exact h.live
  nextFrame := by
    rw [Store.size_define, Store.size_define]
    exact h.nextFrame
  nextId := h.nextId
  output := h.output

theorem newFrame (hlive : V.live f) (hf : f < s.frames.size) :
    V.Shows (s.newFrame (some f)).2 (t.newFrame (some (V.frame f))).2 where
  rooted := h.rooted.newFrame hf
  rooted' := by
    have hnext : V.frame s.frames.size = t.frames.size := h.nextFrame 0
    exact h.rooted'.newFrame (hnext ▸ V.strictMono_frame hf)
  frames := by
    intro g a hg ha
    have hnext : V.frame s.frames.size = t.frames.size := h.nextFrame 0
    have hlast' : V.frame g = t.frames.size ↔ g = s.frames.size := by
      rw [← hnext, V.strictMono_frame.injective.eq_iff]
    rw [Store.frames_newFrame] at ha
    rw [Store.frames_newFrame]
    by_cases hlast : g = s.frames.size
    · rw [if_pos hlast] at ha
      rw [if_pos (hlast'.mpr hlast)]
      obtain rfl := Option.some.inj ha
      refine ⟨_, rfl, rfl, ?_, fun _ _ ↦ .none⟩
      intro parent hparent
      exact Option.some.inj hparent ▸ hlive
    · rw [if_neg hlast] at ha
      rw [if_neg (hlast'.not.mpr hlast)]
      obtain ⟨b, hb, hshows⟩ := h.frames g a hg ha
      exact ⟨b, hb, hshows.mono (s.le_extent_newFrame (some f))⟩
  live := by
    intro g hg
    rw [Store.size_newFrame] at hg
    exact h.live g (Nat.le_of_succ_le hg)
  nextFrame := by
    intro k
    rw [Store.size_newFrame, Store.size_newFrame, Nat.add_assoc, Nat.add_assoc]
    exact h.nextFrame (1 + k)
  nextId := h.nextId
  output := h.output

theorem defineAll (f : FrameId) (names : List String) {vs ws : List Value}
    (hextent : s.extent = n) (hvws : List.Forall₂ (V.Sees n) vs ws) :
    V.Shows (s.defineAll f (names.zip vs)) (t.defineAll (V.frame f) (names.zip ws)) := by
  induction hvws generalizing s t names with
  | nil => rwa [List.zip_nil_right]
  | cons hvw _ ih =>
      cases names with
      | nil => exact h
      | cons name names =>
          exact ih (h.define f name (hextent ▸ hvw)) names (hextent ▸ s.extent_define f name _)

theorem freshId : V.Shows s.freshId.2 t.freshId.2 where
  rooted := h.rooted.of_frames_eq rfl
  rooted' := h.rooted'.of_frames_eq rfl
  frames := by
    intro f a hlive ha
    obtain ⟨b, hb, hshows⟩ := h.frames f a hlive ha
    exact ⟨b, hb, hshows.mono ⟨Nat.le_refl _, Nat.le_succ _⟩⟩
  live := h.live
  nextFrame := h.nextFrame
  nextId := by
    intro k
    have hnext := h.nextId (1 + k)
    rwa [← Nat.add_assoc, ← Nat.add_assoc] at hnext
  output := h.output

theorem write (home : FrameId) (text : String) :
    V.Shows (s.write home text) (t.write home text) where
  rooted := h.rooted.of_frames_eq rfl
  rooted' := h.rooted'.of_frames_eq rfl
  frames := h.frames
  live := h.live
  nextFrame := h.nextFrame
  nextId := h.nextId
  output := by
    obtain ⟨more, hs, ht⟩ := h.output
    refine ⟨more ++ [⟨home, text⟩], ?_, ?_⟩
    · rw [Store.write, Array.toList_push, hs, List.append_assoc]
    · rw [Store.write, Array.toList_push, ht, List.append_assoc]

end Shows

end View

end MiniLisp
