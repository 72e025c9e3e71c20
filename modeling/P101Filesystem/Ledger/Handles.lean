import P101Filesystem.Ledger.Marks

/-!
# What the native layer has handed out

The live directory streams and open descriptors after a log, read off the native calls in
it. `Admits` is what the native layer and the callers are trusted with: only free addresses
and numbers are handed out, dirfd always tells the same, and callers close live streams
that no other call is opening or closing.
-/
namespace P101Filesystem

/-- `descriptorOf n` is the descriptor of the stream opened by item `n` of the log, if
dirfd tells it. With `final`, a failing closedir ends the stream all the same. -/
structure NativeDirectory where
  descriptorOf : Nat → Option Word
  final : Bool

/-- `user` is the thread with a call in progress that opens or closes the stream. -/
structure Stream where
  descriptor : Option Word
  user : Option Nat
  deriving DecidableEq, Repr

/-- What dirfd answers. -/
def Stream.Tells (s : Stream) (fd : Word) : Prop :=
  match s.descriptor with
  | some d => fd = d
  | none => fd < 0

instance (s : Stream) (fd : Word) : Decidable (s.Tells fd) := by
  unfold Stream.Tells
  cases s.descriptor <;> exact inferInstance

/-- A step in which no native closedir fails. -/
def Item.closes : Item → Bool
  | .event _ e => match e.op with
    | .native .closedir _ => e.answer ≠ -1
    | _ => true
  | _ => true

inductive Owner where
  | caller (user : Option Nat)
  | stream (p : Word)
  deriving DecidableEq, Repr

def Stream.leave (t : Nat) (s : Stream) : Stream :=
  if s.user = some t then { s with user := none } else s

def Owner.leave (t : Nat) (o : Owner) : Owner :=
  if o = .caller (some t) then .caller none else o

structure Handles where
  clock : Nat
  streams : Word → Option Stream
  descriptors : Word → Option Owner
  lost : List DirectoryKey

namespace Handles

def start : Handles := ⟨0, fun _ => none, fun _ => none, []⟩

def assign (h : Handles) (fd : Word) (o : Option Owner) : Handles :=
  { h with descriptors := Function.update h.descriptors fd o }

def openStream (h : Handles) (t : Nat) (p : Word) : Option Word → Handles
  | some fd =>
    { h.assign fd (some (.stream p)) with
      streams := Function.update h.streams p (some ⟨some fd, some t⟩) }
  | none => { h with streams := Function.update h.streams p (some ⟨none, some t⟩) }

def closeStream (h : Handles) (p : Word) : Handles :=
  match (h.streams p).bind Stream.descriptor with
  | some fd => { h.assign fd none with streams := Function.update h.streams p none }
  | none => { h with streams := Function.update h.streams p none }

def use (h : Handles) (t : Nat) (p : Word) : Handles :=
  { h with
    streams := Function.update h.streams p
      ((h.streams p).map fun s => { s with user := some t }) }

/-- The call of thread `t` is over. -/
def leave (h : Handles) (t : Nat) : Handles :=
  { h with
    streams := fun p => (h.streams p).map (Stream.leave t)
    descriptors := fun fd => (h.descriptors fd).map (Owner.leave t) }

/-- What the ledger has to say about a live stream. -/
def keys (π : Platform) (h : Handles) (p : Word) : List DirectoryKey :=
  match (h.streams p).bind Stream.descriptor with
  | some fd => [.descriptor fd, .stream (π.pointerResourceId p)]
  | none => [.stream (π.pointerResourceId p)]

def lose (π : Platform) (h : Handles) (p : Word) : Handles :=
  { h.closeStream p with lost := h.keys π p ++ h.lost }

/-- The effect of a native call that has answered. -/
def answered (π : Platform) (ν : NativeDirectory) (h : Handles) (t : Nat) :
    Op → Word → Handles
  | .native .opendir _, p => if p = NULL then h else h.openStream t p (ν.descriptorOf h.clock)
  | .native .fdopendir [fd], p => if p = NULL then h else h.openStream t p (some fd)
  | .native .mkstemp _, fd => if fd = -1 then h else h.assign fd (some (.caller (some t)))
  | .native .closedir [p], v =>
    if v ≠ -1 then h.closeStream p else if ν.final then h.lose π p else h
  | _, _ => h

def happened (π : Platform) (ν : NativeDirectory) (h : Handles) : Nat × Item → Handles
  | (t, .call _ (.closedir p) _) => h.use t p
  | (t, .event _ e) => h.answered π ν t e.op e.answer
  | (_, .act (.open fd)) => h.assign fd (some (.caller none))
  | (_, .act (.close fd)) => h.assign fd none
  | (t, .exit _ _ _) => h.leave t
  | _ => h

def tick (h : Handles) : Handles := { h with clock := h.clock + 1 }

def after (π : Platform) (ν : NativeDirectory) (log : List (Nat × Item)) : Handles :=
  log.foldl (fun h i => (h.happened π ν i).tick) start

@[simp] theorem after_nil (π : Platform) (ν : NativeDirectory) : after π ν [] = start := rfl

@[simp] theorem after_snoc (π : Platform) (ν : NativeDirectory) (log : List (Nat × Item))
    (i : Nat × Item) : after π ν (log ++ [i]) = ((after π ν log).happened π ν i).tick := by
  simp [after]

def Free (h : Handles) (fd : Word) : Prop := 0 ≤ fd ∧ h.descriptors fd = none

/-- A descriptor that belongs to no stream and that no call is making. -/
def Loose (h : Handles) (fd : Word) : Prop := 0 ≤ fd ∧ h.descriptors fd = some (.caller none)

instance (h : Handles) (fd : Word) : Decidable (h.Free fd) :=
  inferInstanceAs (Decidable (_ ∧ _))
instance (h : Handles) (fd : Word) : Decidable (h.Loose fd) :=
  inferInstanceAs (Decidable (_ ∧ _))

/-- The answers a native call may give. -/
def MayAnswer (ν : NativeDirectory) (h : Handles) : Op → Word → Prop
  | .native .opendir _, p =>
    p ≠ NULL → h.streams p = none ∧ ∀ fd ∈ ν.descriptorOf h.clock, h.Free fd
  | .native .fdopendir [fd], p => p ≠ NULL → h.streams p = none ∧ h.Loose fd
  | .native .mkstemp _, fd => fd ≠ -1 → h.Free fd
  | .native .dirfd [p], fd => ∀ s ∈ h.streams p, s.Tells fd
  | _, _ => True

def Admits (ν : NativeDirectory) (h : Handles) : Item → Prop
  | .call _ (.closedir p) _ => ∃ s ∈ h.streams p, s.user = none
  | .event _ e => h.MayAnswer ν e.op e.answer
  | .act (.open fd) => h.Free fd
  | .act (.close fd) => h.Loose fd
  | _ => True

instance (ν : NativeDirectory) (h : Handles) (o : Op) (v : Word) :
    Decidable (h.MayAnswer ν o v) := by
  unfold MayAnswer
  split <;> exact inferInstance

instance (ν : NativeDirectory) (h : Handles) (i : Item) : Decidable (h.Admits ν i) := by
  unfold Admits
  split <;> exact inferInstance

/-- What a step hands out. -/
def handsOut (π : Platform) (ν : NativeDirectory) (h : Handles) : Item → List DirectoryKey
  | .event _ e =>
    match e.op with
    | .native .opendir _ =>
      if e.answer = NULL then []
      else ((ν.descriptorOf h.clock).map DirectoryKey.descriptor).toList ++
        [.stream (π.pointerResourceId e.answer)]
    | .native .fdopendir _ =>
      if e.answer = NULL then [] else [.stream (π.pointerResourceId e.answer)]
    | .native .mkstemp _ => if e.answer = -1 then [] else [.descriptor e.answer]
    | _ => []
  | .act (.open fd) => [.descriptor fd]
  | _ => []

def Live (π : Platform) (h : Handles) : DirectoryKey → Prop
  | .descriptor fd => (h.descriptors fd).isSome
  | .stream id => ∃ p, (h.streams p).isSome ∧ π.pointerResourceId p = id

/-! ## Frame lemmas -/

section
variable {π : Platform} {h : Handles} {t : Nat} {p fd : Word} {d : Option Word} {o : Option Owner}

@[simp] theorem assign_streams : (h.assign fd o).streams = h.streams := rfl
@[simp] theorem assign_descriptors :
    (h.assign fd o).descriptors = Function.update h.descriptors fd o := rfl
@[simp] theorem assign_lost : (h.assign fd o).lost = h.lost := rfl
@[simp] theorem use_descriptors : (h.use t p).descriptors = h.descriptors := rfl
@[simp] theorem use_lost : (h.use t p).lost = h.lost := rfl
@[simp] theorem leave_lost : (h.leave t).lost = h.lost := rfl

@[simp] theorem openStream_streams :
    (h.openStream t p d).streams = Function.update h.streams p (some ⟨d, some t⟩) := by
  cases d <;> rfl

theorem openStream_descriptors (fd : Word) : (h.openStream t p d).descriptors fd =
    if d = some fd then some (.stream p) else h.descriptors fd := by
  cases d with
  | none => rfl
  | some c => simp [openStream, Function.update_apply, eq_comm]

@[simp] theorem openStream_lost : (h.openStream t p d).lost = h.lost := by
  cases d <;> rfl

@[simp] theorem closeStream_streams :
    (h.closeStream p).streams = Function.update h.streams p none := by
  unfold closeStream
  split <;> rfl

theorem closeStream_descriptors (fd : Word) : (h.closeStream p).descriptors fd =
    if (h.streams p).bind Stream.descriptor = some fd then none else h.descriptors fd := by
  unfold closeStream
  split
  · next c hc => simp [hc, Function.update_apply, eq_comm]
  · next hc => simp [hc]

@[simp] theorem closeStream_lost : (h.closeStream p).lost = h.lost := by
  unfold closeStream
  split <;> rfl

end

/-! ## Well-formed handles -/

/-- A live stream owns its descriptor. -/
structure Wf (h : Handles) : Prop where
  owned : ∀ {p s fd}, h.streams p = some s → s.descriptor = some fd →
    0 ≤ fd ∧ h.descriptors fd = some (.stream p)

/-- What another thread is opening or closing stays as it is. -/
structure Spares (t : Nat) (h h' : Handles) : Prop where
  streams : ∀ {p s u}, h.streams p = some s → s.user = some u → u ≠ t → h'.streams p = some s
  descriptors : ∀ {fd u}, h.descriptors fd = some (.caller (some u)) → u ≠ t →
    h'.descriptors fd = some (.caller (some u))

theorem Spares.refl {t : Nat} {h : Handles} : Spares t h h := ⟨fun hs _ _ => hs, fun hd _ => hd⟩

variable {h : Handles} {t : Nat} {p fd : Word} {s : Stream} {d : Option Word} {o : Option Owner}

theorem wf_start : start.Wf := ⟨fun hs => by cases hs⟩

theorem Wf.use (hw : h.Wf) : (h.use t p).Wf := by
  constructor
  intro q s' fd hs hd
  by_cases hq : q = p
  · subst hq
    simp only [Handles.use, Function.update_self, Option.map_eq_some_iff] at hs
    obtain ⟨s₀, hs₀, rfl⟩ := hs
    exact hw.owned hs₀ hd
  · simp only [Handles.use, Function.update_of_ne hq] at hs
    exact hw.owned hs hd

theorem spares_use (hp : h.streams p = some s) (hu : s.user = none) : Spares t h (h.use t p) := by
  refine ⟨fun {q s' u} hs hsu _ => ?_, fun hd _ => hd⟩
  by_cases hq : q = p
  · subst hq
    rw [hp] at hs
    cases hs
    rw [hu] at hsu
    cases hsu
  · simpa [Handles.use, Function.update_of_ne hq] using hs

theorem leave_stream_eq {u : Nat} (h : s.user = some u) (hu : u ≠ t) : s.leave t = s := by
  simp [Stream.leave, h, hu]

@[simp] theorem leave_descriptor : (s.leave t).descriptor = s.descriptor := by
  unfold Stream.leave
  split <;> rfl

theorem Wf.leave (hw : h.Wf) : (h.leave t).Wf := by
  constructor
  intro q s' fd hs hd
  simp only [Handles.leave, Option.map_eq_some_iff] at hs ⊢
  obtain ⟨s₀, hs₀, rfl⟩ := hs
  rw [leave_descriptor] at hd
  obtain ⟨hfd, hown⟩ := hw.owned hs₀ hd
  exact ⟨hfd, _, hown, rfl⟩

theorem spares_leave : Spares t h (h.leave t) := by
  constructor
  · intro q s' u hs hsu hu
    simp only [Handles.leave, hs, Option.map_some]
    rw [leave_stream_eq hsu hu]
  · intro fd u hd hu
    simp [Handles.leave, hd, Owner.leave, hu]

theorem Wf.openStream (hw : h.Wf) (hp : h.streams p = none)
    (hd : ∀ fd ∈ d, 0 ≤ fd ∧ ∀ q, h.descriptors fd ≠ some (.stream q)) :
    (h.openStream t p d).Wf := by
  constructor
  intro q s' fd hs hfd
  rw [openStream_descriptors]
  rw [openStream_streams] at hs
  by_cases hq : q = p
  · subst hq
    simp only [Function.update_self, Option.some.injEq] at hs
    subst hs
    dsimp only at hfd
    exact ⟨(hd fd hfd).1, by simp [hfd]⟩
  · rw [Function.update_of_ne hq] at hs
    obtain ⟨hnn, hown⟩ := hw.owned hs hfd
    have hne : d ≠ some fd := fun he => (hd fd he).2 q hown
    exact ⟨hnn, by simp [hne, hown]⟩

theorem spares_openStream (hp : h.streams p = none)
    (hd : ∀ fd ∈ d, ∀ u, h.descriptors fd ≠ some (.caller (some u))) :
    Spares t h (h.openStream t p d) := by
  constructor
  · intro q s' u hs _ _
    have hq : q ≠ p := by
      rintro rfl
      rw [hp] at hs
      cases hs
    rw [openStream_streams, Function.update_of_ne hq, hs]
  · intro fd u hfd _
    have hne : d ≠ some fd := fun he => hd fd he u hfd
    rw [openStream_descriptors, if_neg hne, hfd]

theorem Wf.closeStream (hw : h.Wf) : (h.closeStream p).Wf := by
  constructor
  intro q s' fd hs hfd
  rw [closeStream_streams] at hs
  rw [closeStream_descriptors]
  by_cases hq : q = p
  · subst hq
    simp at hs
  · rw [Function.update_of_ne hq] at hs
    obtain ⟨hnn, hown⟩ := hw.owned hs hfd
    refine ⟨hnn, ?_⟩
    rw [if_neg, hown]
    intro hd
    obtain ⟨s₀, hs₀, hd₀⟩ := Option.bind_eq_some_iff.mp hd
    have hown' := (hw.owned hs₀ hd₀).2
    rw [hown] at hown'
    cases hown'
    exact hq rfl

theorem spares_closeStream (hw : h.Wf) (hp : h.streams p = some s) (hs : s.user = some t) :
    Spares t h (h.closeStream p) := by
  constructor
  · intro q s' u hq hqu hu
    have hne : q ≠ p := by
      rintro rfl
      rw [hp] at hq
      cases hq
      rw [hs] at hqu
      cases hqu
      exact hu rfl
    rw [closeStream_streams, Function.update_of_ne hne, hq]
  · intro fd u hfd _
    rw [closeStream_descriptors, if_neg, hfd]
    intro hd
    obtain ⟨s₀, hs₀, hd₀⟩ := Option.bind_eq_some_iff.mp hd
    rw [(hw.owned hs₀ hd₀).2] at hfd
    cases hfd

theorem Wf.assign (hw : h.Wf) (hfd : ∀ q, h.descriptors fd ≠ some (.stream q)) :
    (h.assign fd o).Wf := by
  constructor
  intro q s' fd' hs hd
  obtain ⟨hnn, hown⟩ := hw.owned hs hd
  have hne : fd' ≠ fd := by
    rintro rfl
    exact hfd q hown
  exact ⟨hnn, by rw [assign_descriptors, Function.update_of_ne hne, hown]⟩

theorem spares_assign (hfd : ∀ u, h.descriptors fd ≠ some (.caller (some u))) :
    Spares t h (h.assign fd o) := by
  refine ⟨fun hs _ _ => hs, fun {fd' u} hd _ => ?_⟩
  have hne : fd' ≠ fd := by
    rintro rfl
    exact hfd u hd
  rw [assign_descriptors, Function.update_of_ne hne, hd]

theorem Wf.tick (hw : h.Wf) : h.tick.Wf := ⟨hw.owned⟩

end Handles

end P101Filesystem
