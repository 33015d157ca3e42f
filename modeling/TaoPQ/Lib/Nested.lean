/-!
# Nested transactions

What nested transactions mean, without a word about how they are made: a content that statements change, and the
scopes that are open, innermost first, each with the content at the time it was opened.  Committing the innermost
scope keeps the content, and rolling it back restores that of its opening.  After a statement has failed in a scope
nothing more is changed until a scope is rolled back.
-/

/-- A content with the scopes opened on it, named by `ν`. -/
structure Nested (ν γ : Type) where
  content : γ
  failed : Bool
  frames : List (ν × γ)

namespace Nested

variable {ν γ : Type}

def init (x : γ) : Nested ν γ := ⟨x, false, []⟩

/-- The content outside all scopes. -/
def committed (n : Nested ν γ) : γ := (n.frames.getLast?.map Prod.snd).getD n.content

/-- A statement, which is undefined where it fails. -/
def run (n : Nested ν γ) (effect : γ → Option γ) : Nested ν γ :=
  if n.failed then n
  else
    match effect n.content with
    | some x => { n with content := x }
    | none => { n with failed := !n.frames.isEmpty }

/-- A scope is opened, unless a statement has failed. -/
def begin (n : Nested ν γ) (a : ν) : Nested ν γ :=
  if n.failed then n else { n with frames := (a, n.content) :: n.frames }

/-- The innermost scope is rolled back. -/
def rollback (n : Nested ν γ) : Nested ν γ :=
  match n.frames with
  | [] => n
  | (_, x) :: rest => ⟨x, false, rest⟩

/-- The innermost scope is committed.  The outermost one may be refused, and is rolled back then. -/
def commit (n : Nested ν γ) (refused : Bool) : Nested ν γ :=
  match n.frames with
  | [] => n
  | [_] => if refused then n.rollback else { n with frames := [] }
  | _ :: rest => { n with frames := rest }

/-- The innermost scopes are rolled back as long as their owners are gone. -/
def sweep (n : Nested ν γ) (alive : ν → Bool) : Nested ν γ := go n.content n.failed n.frames
where
  go (x : γ) (failed : Bool) : List (ν × γ) → Nested ν γ
    | [] => ⟨x, failed, []⟩
    | (a, y) :: rest => if alive a then ⟨x, failed, (a, y) :: rest⟩ else go y false rest

/-- What can happen to the scopes. -/
inductive Event (ν γ : Type) where
  | skip
  | run (effect : γ → Option γ)
  | begin (a : ν)
  | commit (refused : Bool)
  | rollback
  | sweep (alive : ν → Bool)

def step (n : Nested ν γ) : Event ν γ → Nested ν γ
  | .skip => n
  | .run effect => n.run effect
  | .begin a => n.begin a
  | .commit refused => n.commit refused
  | .rollback => n.rollback
  | .sweep alive => n.sweep alive

variable {n : Nested ν γ}

theorem rollback_frames : n.rollback.frames = n.frames.tail := by
  unfold rollback
  split <;> simp [*]

theorem begin_of_not_failed (hf : n.failed = false) (a : ν) :
    n.begin a = { n with frames := (a, n.content) :: n.frames } := by simp [begin, hf]

theorem begin_of_failed (hf : n.failed = true) (a : ν) : n.begin a = n := by simp [begin, hf]

end Nested
