import P101Filesystem.Source.Readings
import P101Filesystem.Ledger.Account

/-!
# What the ledger is told

One record is one mark, on a descriptor, a directory stream id, a glob result id or a heap
block. The wrappers of other libraries open, close and free together with their record.
-/
namespace P101Filesystem

/-- What directory streams are made of, as the ledger names it. -/
inductive DirectoryKey where
  | descriptor (fd : Word)
  | stream (id : String)
  deriving DecidableEq, Repr

def Record.directory : Record → Option (DirectoryKey × Bool)
  | .openFd fd => some (.descriptor fd, true)
  | .closeFd fd => some (.descriptor fd, false)
  | .acquire .directoryStream id _ _ => some (.stream id, true)
  | .release .directoryStream id => some (.stream id, false)
  | _ => none

def Record.globResult : Record → Option (String × Bool)
  | .acquire .globResult id _ _ => some (id, true)
  | .release .globResult id => some (id, false)
  | _ => none

def Record.block : Record → Option (Word × Bool)
  | .alloc p _ => some (p, true)
  | _ => none

def Foreign.directory : Foreign → Option (DirectoryKey × Bool)
  | .open fd => some (.descriptor fd, true)
  | .close fd => some (.descriptor fd, false)
  | .free _ => none

def Foreign.block : Foreign → Option (Word × Bool)
  | .free p => some (p, false)
  | _ => none

/-- The mark an item of the log makes, when `r` and `x` say what records and foreign
wrappers do. -/
def Item.mark {K : Type} (r : Record → Option (K × Bool)) (x : Foreign → Option (K × Bool)) :
    Nat × Item → Option (K × Bool)
  | (_, .event _ e) => (recordOf e).bind r
  | (_, .act y) => x y
  | _ => none

def directoryMarks (log : List (Nat × Item)) (k : DirectoryKey) : List Bool :=
  Ledger.marks (Item.mark Record.directory Foreign.directory) log k

def globMarks (log : List (Nat × Item)) (id : String) : List Bool :=
  Ledger.marks (Item.mark Record.globResult fun _ => none) log id

def blockMarks (log : List (Nat × Item)) (p : Word) : List Bool :=
  Ledger.marks (Item.mark Record.block Foreign.block) log p

/-- What the events of one call mark is read off its records. -/
theorem marks_events {K : Type} [DecidableEq K] (r : Record → Option (K × Bool))
    (x : Foreign → Option (K × Bool)) (t id : Nat) (es : List Event) (k : K) :
    Ledger.marks (Item.mark r x) (es.map fun e => (t, .event id e)) k =
      (recorded es).filterMap fun note =>
        (r note).bind fun m => if m.1 = k then some m.2 else none := by
  simp only [Ledger.marks, recorded, List.filterMap_map, List.filterMap_filterMap]
  refine congrArg (fun f => List.filterMap f es) (funext fun e => ?_)
  cases h : recordOf e with
  | none => simp [Item.mark, h]
  | some note => simp [Item.mark, h]

/-- A wrapper's caller is in control of thread `t`: between its calls, or in a callback. -/
def UserRuns (cfg : Config) (t : Nat) : Prop :=
  match (cfg.threads t).stack with
  | .outside .main _ _ :: _ => True
  | .outside (.user _ _) _ _ :: _ => True
  | _ => False

instance (cfg : Config) (t : Nat) : Decidable (UserRuns cfg t) := by
  unfold UserRuns
  split <;> exact inferInstance

end P101Filesystem
