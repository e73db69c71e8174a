import MiniLisp.Value.Printer

/-!
# Frames and the store

Bindings live in frames, and a frame may have a parent. The store holds every frame ever made, in
order of making, so a parent always stands before its children. A name is looked up along the chain
of frames, innermost first; a definition touches one frame only, and a name that is bound again keeps
its place. The store also counts the identities that were given out, and keeps the lines that were
written, each with the root frame whose output it belongs to. Identity zero is never given out: it
marks the numbers that forms hold.
-/

namespace MiniLisp

structure Frame where
  parent : Option FrameId
  bindings : List (String × Value)
deriving Inhabited

/-- Binds a name, in its old place if it has one and behind the others if not. -/
def bindName (name : String) (value : Value) : List (String × Value) → List (String × Value)
  | [] => [(name, value)]
  | (n, v) :: rest => if n = name then (n, value) :: rest else (n, v) :: bindName name value rest

structure Line where
  home : FrameId
  text : String

structure Store where
  frames : Array Frame
  nextId : Nat
  output : Array Line

namespace Store

def empty : Store := ⟨#[], 1, #[]⟩

instance : Inhabited Store := ⟨empty⟩

def bindings (s : Store) (f : FrameId) : List (String × Value) :=
  match s.frames[f]? with
  | some frame => frame.bindings
  | none => []

def parent? (s : Store) (f : FrameId) : Option FrameId := s.frames[f]?.bind (·.parent)

/-- The frames from `f` outwards, at most `room` of them. -/
def chainFrom (s : Store) : Nat → FrameId → List FrameId
  | 0, _ => []
  | room + 1, f =>
    match s.frames[f]? with
    | none => []
    | some ⟨none, _⟩ => [f]
    | some ⟨some parent, _⟩ => f :: s.chainFrom room parent

/-- The frames from `f` outwards; there are no more than were made up to `f`. -/
def chain (s : Store) (f : FrameId) : List FrameId := s.chainFrom (f + 1) f

def find? (s : Store) (f : FrameId) (name : String) : Option FrameId :=
  (s.chain f).find? fun g ↦ (s.bindings g).any (·.1 == name)

def lookup? (s : Store) (f : FrameId) (name : String) : Option Value :=
  (s.find? f name).bind fun g ↦ (s.bindings g).lookup name

def contains (s : Store) (f : FrameId) (name : String) : Bool := (s.find? f name).isSome

def define (s : Store) (f : FrameId) (name : String) (value : Value) : Store :=
  { s with frames := s.frames.modify f fun frame ↦
      { frame with bindings := bindName name value frame.bindings } }

def newFrame (s : Store) (parent : Option FrameId) : FrameId × Store :=
  (s.frames.size, { s with frames := s.frames.push ⟨parent, []⟩ })

def defineAll (s : Store) (f : FrameId) (pairs : List (String × Value)) : Store :=
  pairs.foldl (fun s (name, value) ↦ s.define f name value) s

/-- Makes a root frame, which binds the native functions. -/
def newRoot (s : Store) : FrameId × Store :=
  let (f, s) := s.newFrame none
  (f, s.defineAll f (Primitive.all.map fun op ↦ (op.name, .native op f)))

/-- The store of a new session; its root is frame zero. -/
def initial : Store := empty.newRoot.2

def write (s : Store) (home : FrameId) (text : String) : Store :=
  { s with output := s.output.push ⟨home, text⟩ }

/-- The lines written after the first `count`, to whatever output. -/
def linesAfter (s : Store) (count : Nat) : List String := (s.output.toList.drop count).map (·.text)

def lines (s : Store) : List String := s.output.toList.map (·.text)

def linesOf (s : Store) (home : FrameId) : List String :=
  (s.output.toList.filter (·.home == home)).map (·.text)

def freshId (s : Store) : Nat × Store := (s.nextId, { s with nextId := s.nextId + 1 })

def describeBindings (bindings : List (String × Value)) : String :=
  "\x7b" ++ ", ".intercalate (bindings.map fun (name, v) ↦ name ++ ": " ++ v.inspect) ++ "\x7d"

/-- One frame in a listing, with a sign if it has a parent. -/
def describeFrame (s : Store) (f : FrameId) : String :=
  let more := if (s.parent? f).isSome then " -> ..." else ""
  describeBindings (s.bindings f) ++ more

def describeChain (s : Store) (f : FrameId) : String :=
  let frames := (s.chain f).map fun g ↦ describeBindings (s.bindings g)
  "<Environment chain: " ++ " -> ".intercalate frames ++ ">"

end Store

/-- A binding was asked for under something that is not a name. -/
structure BindError where
  target : Value

def BindError.message (e : BindError) : String :=
  "Cannot define " ++ e.target.inspect ++ ": not a Symbol"

/-- Binds a value under a symbol that is itself given as a value. -/
def Store.bindUnder (s : Store) (f : FrameId) (target value : Value) : Except BindError Store :=
  match target with
  | .symbol name => .ok (s.define f name value)
  | _ => .error ⟨target⟩

/-- Binds values under symbols, in turn. It stops at what is not a symbol, and what it has bound by
then stays. -/
def Store.bindAllUnder (s : Store) (f : FrameId) :
    List (Value × Value) → Except BindError Unit × Store
  | [] => (.ok (), s)
  | (target, value) :: pairs =>
    match s.bindUnder f target value with
    | .ok s => s.bindAllUnder f pairs
    | .error e => (.error e, s)

end MiniLisp
