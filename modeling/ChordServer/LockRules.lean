import ChordServer.LockThreads
import Mathlib.Data.List.Basic

set_option autoImplicit false

/- Rely and guarantee for programs with scoped locks: what a thread knows of the shared data
while it holds its locks, whatever the other threads do. Nothing below is specific to one
program. -/

/-- The discipline that the threads follow: an invariant of the shared data, what a lock
protects, what no step ever takes back, and what holds of a lock's data while nobody writes
them. -/
structure LockRules (Lock Shared : Type) where
  valid : Shared → Prop
  kept : Lock → Shared → Shared → Prop
  grows : Shared → Shared → Prop
  rests : Lock → Shared → Prop
  kept_refl : ∀ lock s, kept lock s s
  grows_refl : ∀ s, grows s s
  grows_trans : ∀ s t u, grows s t → grows t u → grows s u
  rests_kept : ∀ lock s t, kept lock s t → rests lock s → rests lock t

/-- The locks that a thread holds, the last one first. -/
abbrev HeldLocks (Lock : Type) : Type := List (Lock × LockMode)

namespace LockRules

variable {Lock Shared : Type} (rules : LockRules Lock Shared)

/-- A step that a thread with these locks may make. -/
structure Guarantee (held : HeldLocks Lock) (s t : Shared) : Prop where
  valid : rules.valid t
  grows : rules.grows s t
  kept : ∀ lock, (lock, .write) ∉ held → rules.kept lock s t

/-- A step of another thread, seen by one with these locks. -/
structure Rely (held : HeldLocks Lock) (s t : Shared) : Prop where
  valid : rules.valid t
  grows : rules.grows s t
  kept : ∀ lock mode, (lock, mode) ∈ held → rules.kept lock s t

/-- What the thread knows stays true whatever the others do. -/
def Stable (held : HeldLocks Lock) (known : Shared → Prop) : Prop :=
  ∀ s t, rules.valid s → rules.Rely held s t → known s → known t

variable {rules} {held outer : HeldLocks Lock} {s t : Shared} {known other : Shared → Prop}

theorem Guarantee.refl (valid : rules.valid s) : rules.Guarantee held s s :=
  ⟨valid, rules.grows_refl s, fun lock _ => rules.kept_refl lock s⟩

theorem Guarantee.mono (inside : held ⊆ outer) (guarantee : rules.Guarantee held s t) :
    rules.Guarantee outer s t :=
  ⟨guarantee.valid, guarantee.grows, fun lock absent =>
    guarantee.kept lock fun member => absent (inside member)⟩

theorem Stable.mono (inside : held ⊆ outer) (stable : rules.Stable held known) :
    rules.Stable outer known := fun s t valid rely =>
  stable s t valid ⟨rely.valid, rely.grows, fun lock mode member =>
    rely.kept lock mode (inside member)⟩

theorem stable_true : rules.Stable held fun _ => True := fun _ _ _ _ _ => trivial

theorem Stable.and (first : rules.Stable held known) (second : rules.Stable held other) :
    rules.Stable held fun s => known s ∧ other s := fun s t valid rely both =>
  ⟨first s t valid rely both.1, second s t valid rely both.2⟩

/-- Of what a lock protects nothing changes while the lock is held. -/
theorem stable_of_kept {lock : Lock} {mode : LockMode} (member : (lock, mode) ∈ held)
    (same : ∀ s t, rules.kept lock s t → known s → known t) : rules.Stable held known :=
  fun s t _ rely => same s t (rely.kept lock mode member)

theorem stable_of_grows (same : ∀ s t, rules.grows s t → known s → known t) :
    rules.Stable held known := fun s t _ rely => same s t rely.grows

/-- A thread that asks for the lock waits for itself. -/
def BlocksItself (held : HeldLocks Lock) (lock : Lock) (mode : LockMode) : Prop :=
  (lock, .write) ∈ held ∨ mode = .write ∧ (lock, .read) ∈ held

end LockRules

namespace LockProgram

variable {Lock Shared Fault α β : Type} (rules : LockRules Lock Shared)

/-- With these locks and this knowledge the program makes only steps that the rules allow,
and ends with the locks `final` and with `post` of its result. -/
def Obeys (final : HeldLocks Lock) (post : α → Shared → Prop) :
    HeldLocks Lock → (Shared → Prop) → LockProgram Lock Shared Fault α → Prop
  | held, known, .done result =>
      held = final ∧ ∀ s, rules.valid s → known s → post result s
  | _, _, .crash _ => True
  | held, known, .acquire lock mode rest =>
      LockRules.BlocksItself held lock mode ∨
        ∃ after, rules.Stable ((lock, mode) :: held) after ∧
          (∀ s, rules.valid s → known s → rules.rests lock s → after s) ∧
          rest.Obeys final post ((lock, mode) :: held) after
  | held, known, .release lock rest =>
      ∃ mode outer after, held = (lock, mode) :: outer ∧ rules.Stable outer after ∧
        (∀ s, rules.valid s → known s → after s ∧ (mode = .write → rules.rests lock s)) ∧
        rest.Obeys final post outer after
  | held, known, .access update rest =>
      ∀ s, rules.valid s → known s → rules.Guarantee held s (update s) ∧
        ∃ after, rules.Stable held after ∧ after (update s) ∧
          (rest s).Obeys final post held after

/-- The program obeys the rules and says nothing of its result. -/
def Steady (held : HeldLocks Lock) (program : LockProgram Lock Shared Fault α) : Prop :=
  program.Obeys rules held (fun _ _ => True) held fun _ => True

variable {rules} {final held outer middle : HeldLocks Lock} {known other : Shared → Prop}
  {post : α → Shared → Prop} {program : LockProgram Lock Shared Fault α}

theorem Obeys.mono (stronger : ∀ s, rules.valid s → other s → known s)
    (obeys : program.Obeys rules final post held known) :
    program.Obeys rules final post held other := by
  cases program with
  | done result => exact ⟨obeys.1, fun s valid knows => obeys.2 s valid (stronger s valid knows)⟩
  | crash fault => trivial
  | acquire lock mode rest =>
    rcases obeys with blocks | ⟨after, stable, follows, later⟩
    · exact .inl blocks
    · exact .inr ⟨after, stable, fun s valid knows => follows s valid (stronger s valid knows),
        later⟩
  | release lock rest =>
    obtain ⟨mode, outer, after, shape, stable, follows, later⟩ := obeys
    exact ⟨mode, outer, after, shape, stable,
      fun s valid knows => follows s valid (stronger s valid knows), later⟩
  | access update rest => exact fun s valid knows => obeys s valid (stronger s valid knows)

theorem Obeys.weaken {weaker : α → Shared → Prop}
    (follows : ∀ result s, rules.valid s → post result s → weaker result s) :
    ∀ {held : HeldLocks Lock} {known : Shared → Prop},
      program.Obeys rules final post held known → program.Obeys rules final weaker held known := by
  induction program with
  | done result =>
    exact fun obeys => ⟨obeys.1, fun s valid knows =>
      follows result s valid (obeys.2 s valid knows)⟩
  | crash fault => exact fun _ => trivial
  | acquire lock mode rest ih =>
    rintro held known (blocks | ⟨after, stable, gives, later⟩)
    · exact .inl blocks
    · exact .inr ⟨after, stable, gives, ih later⟩
  | release lock rest ih =>
    rintro held known ⟨mode, outer, after, shape, stable, gives, later⟩
    exact ⟨mode, outer, after, shape, stable, gives, ih later⟩
  | access update rest ih =>
    intro held known obeys s valid knows
    obtain ⟨guarantee, after, stable, gives, later⟩ := obeys s valid knows
    exact ⟨guarantee, after, stable, gives, ih s later⟩

theorem Obeys.bind {last : β → Shared → Prop} {next : α → LockProgram Lock Shared Fault β}
    (following : ∀ result, (next result).Obeys rules final last middle (post result)) :
    ∀ {held : HeldLocks Lock} {known : Shared → Prop},
      program.Obeys rules middle post held known →
        (program.bind next).Obeys rules final last held known := by
  induction program with
  | done result =>
    rintro held known ⟨rfl, gives⟩
    exact (following result).mono gives
  | crash fault => exact fun _ => trivial
  | acquire lock mode rest ih =>
    rintro held known (blocks | ⟨after, stable, gives, later⟩)
    · exact .inl blocks
    · exact .inr ⟨after, stable, gives, ih later⟩
  | release lock rest ih =>
    rintro held known ⟨mode, outer, after, shape, stable, gives, later⟩
    exact ⟨mode, outer, after, shape, stable, gives, ih later⟩
  | access update rest ih =>
    intro held known obeys s valid knows
    obtain ⟨guarantee, after, stable, gives, later⟩ := obeys s valid knows
    exact ⟨guarantee, after, stable, gives, ih s later⟩

/-- What a program does with some locks it may do with more of them. -/
theorem Obeys.under :
    ∀ {held : HeldLocks Lock} {known : Shared → Prop},
      program.Obeys rules final post held known →
        program.Obeys rules (final ++ outer) post (held ++ outer) known := by
  induction program with
  | done result =>
    rintro held known ⟨rfl, gives⟩
    exact ⟨rfl, gives⟩
  | crash fault => exact fun _ => trivial
  | acquire lock mode rest ih =>
    rintro held known (blocks | ⟨after, stable, gives, later⟩)
    · exact .inl (blocks.imp (List.mem_append_left _)
        fun both => ⟨both.1, List.mem_append_left _ both.2⟩)
    · exact .inr ⟨after, stable.mono (List.subset_append_left _ outer), gives, ih later⟩
  | release lock rest ih =>
    rintro held known ⟨mode, inner, after, rfl, stable, gives, later⟩
    exact ⟨mode, inner ++ outer, after, rfl, stable.mono (List.subset_append_left _ outer), gives,
      ih later⟩
  | access update rest ih =>
    intro held known obeys s valid knows
    obtain ⟨guarantee, after, stable, gives, later⟩ := obeys s valid knows
    exact ⟨guarantee.mono (List.subset_append_left _ outer), after,
      stable.mono (List.subset_append_left _ outer), gives, ih s later⟩

/-- A fact that no step takes back is still there at the end. -/
theorem Obeys.frame {fact : Shared → Prop} (lasts : ∀ s t, rules.grows s t → fact s → fact t) :
    ∀ {held : HeldLocks Lock} {known : Shared → Prop},
      program.Obeys rules final post held known →
        program.Obeys rules final (fun result s => post result s ∧ fact s) held
          fun s => known s ∧ fact s := by
  have stays : ∀ held : HeldLocks Lock, rules.Stable held fact :=
    fun _ => LockRules.stable_of_grows lasts
  induction program with
  | done result =>
    exact fun obeys => ⟨obeys.1, fun s valid knows => ⟨obeys.2 s valid knows.1, knows.2⟩⟩
  | crash fault => exact fun _ => trivial
  | acquire lock mode rest ih =>
    rintro held known (blocks | ⟨after, stable, gives, later⟩)
    · exact .inl blocks
    · exact .inr ⟨fun s => after s ∧ fact s, stable.and (stays _),
        fun s valid knows rests => ⟨gives s valid knows.1 rests, knows.2⟩, ih later⟩
  | release lock rest ih =>
    rintro held known ⟨mode, outer, after, shape, stable, gives, later⟩
    refine ⟨mode, outer, fun s => after s ∧ fact s, shape, stable.and (stays _),
      fun s valid knows => ?_, ih later⟩
    exact ⟨⟨(gives s valid knows.1).1, knows.2⟩, (gives s valid knows.1).2⟩
  | access update rest ih =>
    intro held known obeys s valid knows
    obtain ⟨guarantee, after, stable, gives, later⟩ := obeys s valid knows.1
    exact ⟨guarantee, fun s => after s ∧ fact s, stable.and (stays _),
      ⟨gives, lasts s _ guarantee.grows knows.2⟩, ih s later⟩

theorem obeys_pure {result : α} (gives : ∀ s, rules.valid s → known s → post result s) :
    (pure result : LockProgram Lock Shared Fault α).Obeys rules held post held known :=
  ⟨rfl, gives⟩

theorem obeys_bind {last : β → Shared → Prop} {next : α → LockProgram Lock Shared Fault β}
    (first : program.Obeys rules middle post held known)
    (following : ∀ result, (next result).Obeys rules final last middle (post result)) :
    (program >>= next).Obeys rules final last held known := Obeys.bind following first

/-- What is read of the shared data stays known as far as it is stable. -/
theorem obeys_read {f : Shared → α} (stable : ∀ result, rules.Stable held (post result))
    (gives : ∀ s, rules.valid s → known s → post (f s) s) :
    (read f : LockProgram Lock Shared Fault α).Obeys rules held post held known :=
  fun s valid knows => ⟨.refl valid, post (f s), stable (f s), gives s valid knows,
    rfl, fun _ _ knows => knows⟩

/-- What follows a reading may know all of the data at that moment that is stable. -/
theorem obeys_read_bind {f : Shared → α} {last : β → Shared → Prop}
    {next : α → LockProgram Lock Shared Fault β} (after : Shared → Shared → Prop)
    (stable : ∀ s, rules.Stable held (after s))
    (gives : ∀ s, rules.valid s → known s → after s s)
    (later : ∀ s, rules.valid s → known s →
      (next (f s)).Obeys rules final last held (after s)) :
    (read f >>= next).Obeys rules final last held known :=
  fun s valid knows => ⟨.refl valid, after s, stable s, gives s valid knows, later s valid knows⟩

theorem obeys_call {f : Shared → Shared × α}
    (guarantee : ∀ s, rules.valid s → known s → rules.Guarantee held s (f s).1)
    (stable : ∀ result, rules.Stable held (post result))
    (gives : ∀ s, rules.valid s → known s → post (f s).2 (f s).1) :
    (call f : LockProgram Lock Shared Fault α).Obeys rules held post held known :=
  fun s valid knows => ⟨guarantee s valid knows, post (f s).2, stable (f s).2,
    gives s valid knows, rfl, fun _ _ knows => knows⟩

theorem obeys_modify {f : Shared → Shared} {after : Shared → Prop}
    (guarantee : ∀ s, rules.valid s → known s → rules.Guarantee held s (f s))
    (stable : rules.Stable held after) (gives : ∀ s, rules.valid s → known s → after (f s)) :
    (modify f : LockProgram Lock Shared Fault Unit).Obeys rules held (fun _ => after) held known :=
  fun s valid knows => ⟨guarantee s valid knows, after, stable, gives s valid knows,
    rfl, fun _ _ knows => knows⟩

/-- A scope that starts with what rests and leaves what rests. -/
theorem obeys_locked {lock : Lock} {mode : LockMode}
    (body : program.Obeys rules ((lock, mode) :: held) post ((lock, mode) :: held) other)
    (starts : rules.Stable ((lock, mode) :: held) other)
    (enters : ∀ s, rules.valid s → known s → rules.rests lock s → other s)
    {last : α → Shared → Prop} (stable : ∀ result, rules.Stable held (last result))
    (leaves : ∀ result s, rules.valid s → post result s →
      last result s ∧ (mode = .write → rules.rests lock s)) :
    (locked lock mode program).Obeys rules held last held known := by
  refine .inr ⟨other, starts, enters, ?_⟩
  have closing : ∀ result, (release lock (done result) :
      LockProgram Lock Shared Fault α).Obeys rules held last ((lock, mode) :: held)
        (post result) :=
    fun result => ⟨mode, held, last result, rfl, stable result, leaves result, rfl,
      fun _ _ knows => knows⟩
  exact Obeys.bind closing body

section Steady

theorem Steady.obeys (steady : program.Steady rules held) :
    program.Obeys rules held (fun _ _ => True) held known :=
  Obeys.mono (fun _ _ _ => trivial) steady

/-- A fact that no step takes back stays known while the program runs. -/
theorem Steady.frame {fact : Shared → Prop} (steady : program.Steady rules held)
    (lasts : ∀ s t, rules.grows s t → fact s → fact t) :
    program.Obeys rules held (fun _ => fact) held fact :=
  ((Obeys.frame lasts steady).weaken fun _ _ _ both => both.2).mono fun _ _ knows =>
    ⟨trivial, knows⟩

theorem Obeys.steady (obeys : program.Obeys rules held post held fun _ => True) :
    program.Steady rules held := obeys.weaken fun _ _ _ _ => trivial

theorem Steady.under (steady : program.Steady rules []) : program.Steady rules held :=
  Obeys.under steady

theorem steady_pure (result : α) :
    (pure result : LockProgram Lock Shared Fault α).Steady rules held :=
  obeys_pure fun _ _ _ => trivial

theorem steady_crash (fault : Fault) :
    (crash fault : LockProgram Lock Shared Fault α).Steady rules held := trivial

theorem steady_bind {next : α → LockProgram Lock Shared Fault β}
    (first : program.Steady rules held) (later : ∀ result, (next result).Steady rules held) :
    (program >>= next).Steady rules held := obeys_bind first later

theorem steady_read (f : Shared → α) :
    (read f : LockProgram Lock Shared Fault α).Steady rules held :=
  obeys_read (fun _ => LockRules.stable_true) fun _ _ _ => trivial

theorem steady_call {f : Shared → Shared × α}
    (guarantee : ∀ s, rules.valid s → rules.Guarantee held s (f s).1) :
    (call f : LockProgram Lock Shared Fault α).Steady rules held :=
  obeys_call (fun s valid _ => guarantee s valid) (fun _ => LockRules.stable_true)
    fun _ _ _ => trivial

theorem steady_modify {f : Shared → Shared}
    (guarantee : ∀ s, rules.valid s → rules.Guarantee held s (f s)) :
    (modify f : LockProgram Lock Shared Fault Unit).Steady rules held :=
  obeys_modify (fun s valid _ => guarantee s valid) LockRules.stable_true fun _ _ _ => trivial

/-- A scope of a lock whose data are no matter while nobody writes them. -/
theorem steady_locked {lock : Lock} {mode : LockMode} (rests : ∀ s, rules.rests lock s)
    (body : program.Steady rules ((lock, mode) :: held)) :
    (locked lock mode program).Steady rules held :=
  obeys_locked body LockRules.stable_true (fun _ _ _ _ => trivial)
    (fun _ => LockRules.stable_true) fun _ s _ _ => ⟨trivial, fun _ => rests s⟩

theorem steady_forM {round : α → LockProgram Lock Shared Fault Unit} {items : List α}
    (rounds : ∀ item ∈ items, (round item).Steady rules held) :
    (items.forM round).Steady rules held := by
  induction items with
  | nil => exact steady_pure ()
  | cons item rest ih =>
    obtain ⟨here, later⟩ := List.forall_mem_cons.mp rounds
    exact steady_bind here fun _ => ih later

theorem steady_foldlM {round : β → α → LockProgram Lock Shared Fault β} {items : List α}
    (rounds : ∀ state, ∀ item ∈ items, (round state item).Steady rules held) (initial : β) :
    (items.foldlM round initial).Steady rules held := by
  induction items generalizing initial with
  | nil => exact steady_pure initial
  | cons item rest ih =>
    rw [List.foldlM_cons]
    exact steady_bind (rounds initial item List.mem_cons_self) fun state =>
      ih (fun state other member => rounds state other (List.mem_cons_of_mem _ member)) state

end Steady

section Zoom

variable {Lock' Shared' : Type} {lockOf : Lock → Lock'} {get : Shared' → Shared}
  {set : Shared → Shared' → Shared'} {rules' : LockRules Lock' Shared'}

/-- The rules of the whole, for what a part does that keeps its own rules. -/
structure Embeds (rules : LockRules Lock Shared) (rules' : LockRules Lock' Shared')
    (lockOf : Lock → Lock') (get : Shared' → Shared) (set : Shared → Shared' → Shared') :
    Prop where
  get_set : ∀ part s, get (set part s) = part
  valid : ∀ s, rules'.valid s → rules.valid (get s)
  grows : ∀ s t, rules'.grows s t → rules.grows (get s) (get t)
  kept : ∀ lock s t, rules'.kept (lockOf lock) s t ↔ rules.kept lock (get s) (get t)
  rests : ∀ lock s, rules'.rests (lockOf lock) s ↔ rules.rests lock (get s)
  whole : ∀ s part, rules'.valid s → rules.valid part → rules.grows (get s) part →
    rules'.valid (set part s) ∧ rules'.grows s (set part s)
  apart : ∀ lock s part, (∀ inner, lockOf inner ≠ lock) → rules'.kept lock s (set part s)

/-- The locks of the part among those of the whole. -/
def outside (lockOf : Lock → Lock') (held : HeldLocks Lock) : HeldLocks Lock' :=
  held.map fun entry => (lockOf entry.1, entry.2)

theorem mem_outside {held : HeldLocks Lock} {lock : Lock} {mode : LockMode}
    (member : (lock, mode) ∈ held) : (lockOf lock, mode) ∈ outside lockOf held :=
  List.mem_map_of_mem (f := fun entry : Lock × LockMode => (lockOf entry.1, entry.2)) member

theorem Embeds.guarantee (embeds : Embeds rules rules' lockOf get set) {s : Shared'} {part : Shared}
    (valid : rules'.valid s) (guarantee : rules.Guarantee held (get s) part) :
    rules'.Guarantee (outside lockOf held) s (set part s) := by
  obtain ⟨whole, grows⟩ := embeds.whole s part valid guarantee.valid guarantee.grows
  refine ⟨whole, grows, fun lock absent => ?_⟩
  by_cases inside : ∃ inner, lockOf inner = lock
  · obtain ⟨inner, rfl⟩ := inside
    rw [embeds.kept, embeds.get_set]
    exact guarantee.kept inner fun member => absent (mem_outside member)
  · exact embeds.apart lock s part fun inner same => inside ⟨inner, same⟩

theorem Embeds.stable (embeds : Embeds rules rules' lockOf get set)
    (stable : rules.Stable held known) :
    rules'.Stable (outside lockOf held) fun s => known (get s) := fun s t valid rely =>
  stable (get s) (get t) (embeds.valid s valid)
    ⟨embeds.valid t rely.valid, embeds.grows s t rely.grows, fun lock mode member =>
      (embeds.kept lock s t).mp (rely.kept (lockOf lock) mode (mem_outside member))⟩

/-- Among other locks and data a program that obeys its rules obeys those of the whole. -/
theorem Obeys.zoom (embeds : Embeds rules rules' lockOf get set) :
    ∀ {held : HeldLocks Lock} {known : Shared → Prop},
      program.Obeys rules final post held known →
        (program.zoom lockOf get set).Obeys rules' (outside lockOf final)
          (fun result s => post result (get s)) (outside lockOf held) fun s => known (get s) := by
  induction program with
  | done result =>
    rintro held known ⟨rfl, gives⟩
    exact ⟨rfl, fun s valid knows => gives (get s) (embeds.valid s valid) knows⟩
  | crash fault => exact fun _ => trivial
  | acquire lock mode rest ih =>
    rintro held known (blocks | ⟨after, stable, gives, later⟩)
    · exact .inl (blocks.imp mem_outside fun both => ⟨both.1, mem_outside both.2⟩)
    · refine .inr ⟨fun s => after (get s), embeds.stable stable, fun s valid knows rests => ?_,
        ih later⟩
      exact gives (get s) (embeds.valid s valid) knows ((embeds.rests lock s).mp rests)
  | release lock rest ih =>
    rintro held known ⟨mode, outer, after, rfl, stable, gives, later⟩
    refine ⟨mode, outside lockOf outer, fun s => after (get s), rfl, embeds.stable stable,
      fun s valid knows => ?_, ih later⟩
    obtain ⟨gets, rests⟩ := gives (get s) (embeds.valid s valid) knows
    exact ⟨gets, fun writes => (embeds.rests lock s).mpr (rests writes)⟩
  | access update rest ih =>
    intro held known obeys s valid knows
    obtain ⟨guarantee, after, stable, gives, later⟩ := obeys (get s) (embeds.valid s valid) knows
    have gives' : after (get (set (update (get s)) s)) := by
      rwa [embeds.get_set]
    exact ⟨embeds.guarantee valid guarantee, fun s => after (get s), embeds.stable stable, gives',
      ih (get s) later⟩

end Zoom

section Recorded

variable {Op : Type}

/-- The call of an operation, whose answer is written down. -/
def recorded (program : LockProgram Lock Shared Fault α) (operation : Op) :
    LockProgram Lock (Shared × List (Op × α)) Fault Unit := do
  let answer ← program.zoom id Prod.fst fun part whole => (part, whole.2)
  modify fun s => (s.1, s.2 ++ [(operation, answer)])

/-- The rules for data and answers, where every answer that has been given stays right. -/
def recordedRules (rules : LockRules Lock Shared) (right : Op → α → Shared → Prop) :
    LockRules Lock (Shared × List (Op × α)) where
  valid s := rules.valid s.1 ∧ ∀ entry ∈ s.2, right entry.1 entry.2 s.1
  kept lock s t := rules.kept lock s.1 t.1
  grows s t := rules.grows s.1 t.1
  rests lock s := rules.rests lock s.1
  kept_refl lock s := rules.kept_refl lock s.1
  grows_refl s := rules.grows_refl s.1
  grows_trans s t u := rules.grows_trans s.1 t.1 u.1
  rests_kept lock s t := rules.rests_kept lock s.1 t.1

variable {right : Op → α → Shared → Prop} {operation : Op}

theorem embeds_recorded (stable : ∀ operation answer, rules.Stable [] (right operation answer)) :
    Embeds rules (recordedRules rules right) id Prod.fst fun part whole => (part, whole.2) where
  get_set _ _ := rfl
  valid _ valid := valid.1
  grows _ _ grows := grows
  kept _ _ _ := Iff.rfl
  rests _ _ := Iff.rfl
  whole s part valid valid' grows :=
    ⟨⟨valid', fun entry member => stable entry.1 entry.2 s.1 part valid.1
      ⟨valid', grows, fun _ _ member => absurd member List.not_mem_nil⟩ (valid.2 entry member)⟩,
      grows⟩
  apart lock _ _ absent := absurd rfl (absent lock)

/-- An answer that stays right whatever happens is right in the log. -/
theorem steady_recorded (stable : ∀ operation answer, rules.Stable [] (right operation answer))
    (obeys : program.Obeys rules [] (right operation) [] fun _ => True) :
    (recorded program operation).Steady (recordedRules rules right) [] := by
  refine obeys_bind (Obeys.zoom (embeds_recorded stable) obeys) fun answer s valid knows => ?_
  refine ⟨⟨⟨valid.1, fun entry member => ?_⟩, rules.grows_refl s.1,
    fun lock _ => rules.kept_refl lock s.1⟩, fun _ => True, LockRules.stable_true, trivial, rfl,
    fun _ _ _ => trivial⟩
  rcases List.mem_append.mp member with earlier | last
  · exact valid.2 entry earlier
  · rw [List.mem_singleton.mp last]
    exact knows

end Recorded

end LockProgram
