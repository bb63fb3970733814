import ChordServer.ConfigLoadDocument
import ChordServer.ConfigRegistry
import ChordServer.Fallible

set_option autoImplicit false

namespace Chord

open YAML

variable {types : VarTypes} {φ σ : Type}

/-- The two are one object at different times. -/
structure TypedVar.SameObject (v later : TypedVar types φ σ) : Prop where
  ptr : later.ptr = v.ptr
  m_name : later.m_name = v.m_name
  tag : later.tag = v.tag

theorem TypedVar.SameObject.refl (v : TypedVar types φ σ) : v.SameObject v := ⟨rfl, rfl, rfl⟩

theorem TypedVar.SameObject.trans {v later last : TypedVar types φ σ} (first : v.SameObject later)
    (second : later.SameObject last) : v.SameObject last :=
  ⟨second.ptr.trans first.ptr, second.m_name.trans first.m_name, second.tag.trans first.tag⟩

namespace TypedConfig

variable {hashing : Hashing} {yaml : YamlCpp} {s next : TypedConfig types φ σ} {name : String}
  {v : TypedVar types φ σ}

/-- Every name is bound to the object that it was bound to before. -/
def Extends (s next : TypedConfig types φ σ) : Prop :=
  ∀ name v, s.find name = some v → ∃ later, next.find name = some later ∧ v.SameObject later

/-- The names that are bound, and their objects, have not changed. -/
structure Keeps (s next : TypedConfig types φ σ) : Prop where
  bound : s.Extends next
  free : ∀ name, s.find name = none → next.find name = none
  made : next.made = s.made

theorem Extends.refl (s : TypedConfig types φ σ) : s.Extends s :=
  fun _ v found => ⟨v, found, .refl v⟩

theorem Extends.trans {last : TypedConfig types φ σ} (first : s.Extends next)
    (second : next.Extends last) : s.Extends last := by
  intro name v found
  obtain ⟨later, found, same⟩ := first name v found
  obtain ⟨final, found, again⟩ := second name later found
  exact ⟨final, found, same.trans again⟩

theorem Keeps.refl (s : TypedConfig types φ σ) : s.Keeps s := ⟨.refl s, fun _ none => none, rfl⟩

theorem Keeps.trans {last : TypedConfig types φ σ} (first : s.Keeps next)
    (second : next.Keeps last) : s.Keeps last :=
  ⟨first.bound.trans second.bound, fun name none => second.free name (first.free name none),
    second.made.trans first.made⟩

/-- What becomes of the map in a step that changes one variable. -/
theorem keeps_of_modify {g : String × TypedVar types φ σ → TypedVar types φ σ}
    (object : ∀ it, s.GetDatas.find name = some it → it.2.SameObject (g it))
    (GetDatas : next.GetDatas = s.GetDatas.modify name (fun it => (it.1, g it)) fun _ => rfl)
    (made : next.made = s.made) : s.Keeps next := by
  have after : ∀ other, next.find other =
      ((s.GetDatas.find other).map fun it => if other = name then (it.1, g it) else it).map
        Prod.snd := by
    intro other
    rw [find, GetDatas, HashedSet.find_modify]
  refine ⟨fun other v here => ?_, fun other none => ?_, made⟩
  · obtain ⟨it, inside, rfl⟩ := Option.map_eq_some_iff.mp here
    rw [after, inside]
    by_cases changed : other = name
    · subst changed
      exact ⟨g it, by simp, object it inside⟩
    · exact ⟨it.2, by simp [changed], .refl it.2⟩
  · rw [after, Option.map_eq_none_iff.mp none]
    rfl

theorem modify_keeps (s : TypedConfig types φ σ) (name : String)
    (f : ∀ tag, ConfigVar (types.Value tag) φ σ → ConfigVar (types.Value tag) φ σ) :
    s.Keeps (s.modify name f) := by
  refine keeps_of_modify ?_ rfl rfl
  exact fun _ _ => ⟨rfl, rfl, rfl⟩

theorem fromString_keeps {text : String} (found : s.find name = some v)
    (ran : s.fromString name v text = .ok next) : s.Keeps next := by
  have object : ∀ it, s.GetDatas.find name = some it → it.2 = v := by
    intro it inside
    rw [find, inside] at found
    exact Option.some.inj found
  unfold fromString at ran
  dsimp only at ran
  split at ran
  · cases ran
    refine keeps_of_modify ?_ rfl rfl
    exact fun it inside => object it inside ▸ ⟨rfl, rfl, rfl⟩
  · cases ran
    refine keeps_of_modify ?_ rfl rfl
    exact fun it inside => object it inside ▸ ⟨rfl, rfl, rfl⟩
  · cases ran

theorem loadEntry_keeps {entry : String × Node} (ran : s.loadEntry yaml entry = .ok next) :
    s.Keeps next := by
  unfold loadEntry at ran
  split at ran
  · cases ran
    exact .refl s
  · split at ran
    · cases ran
      exact .refl s
    · rename_i v found
      exact fromString_keeps found ran

theorem LoadFromYaml_keeps {root : Node} (ran : s.LoadFromYaml yaml root = .ok next) :
    s.Keeps next := by
  have logged : s.Keeps (s.log (ListAllMember yaml "" root).2) :=
    ⟨.refl s, fun _ none => none, rfl⟩
  exact Fallible.foldlM_invariant
    (fun _ _ _ _ kept stepped => Keeps.trans kept (loadEntry_keeps stepped)) logged ran

/-- A callback changes no more than the loader, whatever it does in between. -/
theorem visit_keeps (cb : VisitProgram σ) :
    ∀ {s next : TypedConfig types φ σ}, visit name cb s = .ok next → s.Keeps next := by
  induction cb with
  | done =>
    intro s next ran
    cases ran
    exact .refl s
  | act f program ih =>
    intro s next ran
    have acted : s.Keeps { s with world := f s.world } := ⟨.refl s, fun _ none => none, rfl⟩
    exact acted.trans (ih (f s.world) ran)
  | getName program ih =>
    intro s next ran
    rw [visit] at ran
    split at ran
    · exact ih _ ran
    · cases ran
      exact .refl s
  | getDescription program ih =>
    intro s next ran
    rw [visit] at ran
    split at ran
    · exact ih _ ran
    · cases ran
      exact .refl s
  | getTypeName program ih =>
    intro s next ran
    rw [visit] at ran
    split at ran
    · exact ih _ ran
    · cases ran
      exact .refl s
  | toString program ih =>
    intro s next ran
    rw [visit] at ran
    split at ran
    · rename_i v found
      have logged : s.Keeps (s.log v.toString.2) := ⟨.refl s, fun _ none => none, rfl⟩
      exact logged.trans (ih _ ran)
    · cases ran
      exact .refl s
  | fromString val program ih =>
    intro s next ran
    rw [visit] at ran
    split at ran
    · rename_i v found
      obtain ⟨middle, stepped, later⟩ := Fallible.bind_ok.mp ran
      exact (fromString_keeps found stepped).trans (ih false later)
    · cases ran
      exact .refl s

theorem Visit_keeps {cb : VisitProgram σ} (ran : s.Visit cb = .ok next) : s.Keeps next :=
  Fallible.foldlM_invariant
    (fun _ _ _ _ kept stepped => Keeps.trans kept (visit_keeps cb stepped)) (Keeps.refl s) ran

/-- The registry as the loader knows it. -/
def config (s : TypedConfig types φ σ) : Config φ σ where
  GetDatas name := (s.find name).map TypedVar.base
  world := s.world
  called := s.called
  errors := s.errors

/-- The loader's registry after the members of one variable have changed. -/
theorem config_modify (found : s.find name = some v) (var : ConfigVar (types.Value v.tag) φ σ)
    (after : next.GetDatas =
      s.GetDatas.modify name (fun it => (it.1, { v with var := var })) fun _ => rfl) :
    next.config.GetDatas =
      Function.update s.config.GetDatas name (some { v.base with var := var }) := by
  funext other
  show (next.find other).map TypedVar.base = _
  rw [find, after, HashedSet.find_modify]
  by_cases here : other = name
  · subst here
    obtain ⟨it, inside, -⟩ := Option.map_eq_some_iff.mp found
    rw [inside, Function.update_self]
    simp only [Option.map_some, if_true]
    rfl
  · rw [Function.update_of_ne here]
    simp only [here, if_false]
    show _ = (s.find other).map TypedVar.base
    rw [find, Option.map_id']

theorem fromString_config {text : String} (found : s.find name = some v) :
    (s.fromString name v text).map config = s.config.fromString name v.base text := by
  have ended : ∀ next : TypedConfig types φ σ,
      next.GetDatas = s.GetDatas.modify name (fun it => (it.1,
        { v with var := (v.var.fromString (types.FromStr v.tag) text s.world).var }))
        (fun _ => rfl) →
      (Except.ok next : Except φ _).map config = .ok
        { GetDatas := Function.update s.config.GetDatas name (some { v.base with
            var := (v.var.fromString (types.FromStr v.tag) text s.world).var })
          world := next.world
          called := next.called
          errors := next.errors } := by
    intro next after
    rw [← config_modify found _ after]
    rfl
  unfold fromString Config.fromString
  cases outcome : (v.var.fromString (types.FromStr v.tag) text s.world).outcome with
  | returned world =>
    have same : (v.base.var.fromString v.base.FromStr text s.config.world).outcome =
        .returned world := outcome
    simp only [outcome, same]
    exact ended _ rfl
  | threw what world =>
    have same : (v.base.var.fromString v.base.FromStr text s.config.world).outcome =
        .threw what world := outcome
    simp only [outcome, same]
    exact ended _ rfl
  | crashed fault =>
    have same : (v.base.var.fromString v.base.FromStr text s.config.world).outcome =
        .crashed fault := outcome
    simp only [outcome, same]
    rfl

theorem loadEntry_config (yaml : YamlCpp) (s : TypedConfig types φ σ) (entry : String × Node) :
    (s.loadEntry yaml entry).map config = Config.loadEntry yaml s.config entry := by
  unfold loadEntry Config.loadEntry Config.LookupBase
  split
  · rfl
  · have looked : s.config.GetDatas (tolower entry.1) =
        (s.find (tolower entry.1)).map TypedVar.base := rfl
    rw [looked]
    cases found : s.find (tolower entry.1) with
    | none => rfl
    | some v => exact fromString_config found

/-- The loader does to the typed registry what it does to one of variables of any type. -/
theorem LoadFromYaml_config (yaml : YamlCpp) (root : Node) (s : TypedConfig types φ σ) :
    (s.LoadFromYaml yaml root).map config = Config.LoadFromYaml yaml root s.config :=
  Fallible.foldlM_map_state (loadEntry_config yaml)

/-- Every variable is registered under its own name, which uses the permitted characters only,
and has an address of its own. -/
structure Sound (s : TypedConfig types φ σ) : Prop where
  named : ∀ name v, s.find name = some v → v.getName = name ∧ validName name = true
  placed : ∀ name v, s.find name = some v → v.ptr < s.made
  apart : ∀ name other v w, s.find name = some v → s.find other = some w → v.ptr = w.ptr →
    name = other

theorem Keeps.found_before (keeps : s.Keeps next) (found : next.find name = some v) :
    ∃ before, s.find name = some before ∧ before.SameObject v := by
  cases here : s.find name with
  | none => exact absurd (found.symm.trans (keeps.free name here)) (Option.some_ne_none v)
  | some before =>
    obtain ⟨later, found', same⟩ := keeps.bound name before here
    obtain rfl := Option.some.inj (found.symm.trans found')
    exact ⟨before, rfl, same⟩

theorem Sound.of_keeps (sound : s.Sound) (keeps : s.Keeps next) : next.Sound := by
  refine ⟨fun name v found => ?_, fun name v found => ?_, fun name other v w found also same => ?_⟩
  · obtain ⟨before, here, object⟩ := keeps.found_before found
    obtain ⟨named, valid⟩ := sound.named name before here
    exact ⟨object.m_name.trans named, valid⟩
  · obtain ⟨before, here, object⟩ := keeps.found_before found
    rw [object.ptr, keeps.made]
    exact sound.placed name before here
  · obtain ⟨first, here, object⟩ := keeps.found_before found
    obtain ⟨second, there, image⟩ := keeps.found_before also
    exact sound.apart name other first second here there
      (object.ptr.symm.trans (same.trans image.ptr))

/-- What is bound when a variable has been made. -/
theorem find_register (hashing : Hashing) (unbound : s.find name = none)
    (v : TypedVar types φ σ) (other : String) :
    (s.register hashing name v).find other = if name = other then some v else s.find other := by
  have absent : s.GetDatas.find name = none := Option.map_eq_none_iff.mp unbound
  rw [find, register, HashedSet.find_insert]
  split_ifs with same
  · rw [← same, absent]
    rfl
  · rfl

/-- Everything a `Lookup` with a default value does. -/
theorem Lookup_cases (hashing : Hashing) (s : TypedConfig types φ σ) (tag : types.Tag)
    (name : String) (default_value : types.Value tag) (description : String) :
    (∃ v messages, s.find name = some v ∧
      s.Lookup hashing tag name default_value description =
        (s.log messages, .ok (if v.tag = tag then some v.ptr else none))) ∨
    (s.find name = none ∧ validName name = true ∧
      s.Lookup hashing tag name default_value description =
        (s.register hashing name (.new s.made tag name default_value description),
          .ok (some s.made))) ∨
    (s.find name = none ∧ validName name = false ∧
      ∃ messages, s.Lookup hashing tag name default_value description =
        (s.log messages, .error name)) := by
  unfold Lookup
  cases found : s.find name with
  | some v =>
    refine .inl ?_
    by_cases same : v.tag = tag
    · exact ⟨v, _, rfl, (if_pos same).trans (by rw [if_pos same])⟩
    · exact ⟨v, _, rfl, (if_neg same).trans (by rw [if_neg same])⟩
  | none =>
    cases valid : validName name with
    | true => exact .inr (.inl ⟨rfl, rfl, rfl⟩)
    | false => exact .inr (.inr ⟨rfl, rfl, _, rfl⟩)

theorem Sound.register (sound : s.Sound) (unbound : s.find name = none)
    (valid : validName name = true) (tag : types.Tag) (default_value : types.Value tag)
    (description : String) :
    (s.register hashing name (.new s.made tag name default_value description)).Sound := by
  have bound := find_register hashing unbound
    (TypedVar.new s.made tag name default_value description)
  have fresh : ∀ {other : String} {v : TypedVar types φ σ}, s.find other = some v →
      v.ptr ≠ s.made := fun found => (sound.placed _ _ found).ne
  refine ⟨fun other v found => ?_, fun other v found => ?_, fun one two v w found also same => ?_⟩
  · rw [bound] at found
    split_ifs at found with here
    · cases found
      exact here ▸ ⟨tolower_of_validName valid, valid⟩
    · exact sound.named other v found
  · rw [bound] at found
    split_ifs at found with here
    · cases found
      exact Nat.lt_succ_self s.made
    · exact Nat.lt_succ_of_lt (sound.placed other v found)
  · rw [bound] at found also
    split_ifs at found also with here there there
    · exact here.symm.trans there
    · cases found
      exact absurd same.symm (fresh also)
    · cases also
      exact absurd same (fresh found)
    · exact sound.apart one two v w found also same

/-- The reply of a call that has found nothing to return. -/
def Reply.Refuses : Reply → Prop
  | .pointer none => True
  | .invalid_argument _ => True
  | _ => False

/-- What one call of the registry does to it. -/
structure Performed (s next : TypedConfig types φ σ) (reply : Reply) : Prop where
  sound : s.Sound → next.Sound
  bound : s.Extends next
  refused : reply.Refuses → next.GetDatas = s.GetDatas

theorem Performed.of_keeps (keeps : s.Keeps next) : s.Performed next .returned :=
  ⟨fun sound => sound.of_keeps keeps, keeps.bound, False.elim⟩

/-- The one lemma about a call from which the invariants follow. -/
theorem perform_performed {action : Action types φ σ} {reply : Reply}
    (ran : s.perform hashing yaml action = .ok (next, reply)) : s.Performed next reply := by
  have same : ∀ (messages : List String) reply, s.Performed (s.log messages) reply :=
    fun messages reply => ⟨fun sound => sound.of_keeps ⟨.refl s, fun _ none => none, rfl⟩,
      .refl s, fun _ => rfl⟩
  cases action with
  | Lookup tag name default_value description =>
    rw [perform] at ran
    rcases Lookup_cases hashing s tag name default_value description with
      ⟨v, messages, -, shape⟩ | ⟨unbound, valid, shape⟩ | ⟨unbound, -, messages, shape⟩
    · rw [shape] at ran
      cases ran
      exact same messages _
    · rw [shape] at ran
      cases ran
      refine ⟨fun sound => sound.register unbound valid tag default_value description, ?_, nofun⟩
      intro other v found
      refine ⟨v, ?_, .refl v⟩
      rw [find_register hashing unbound, if_neg, found]
      rintro rfl
      rw [unbound] at found
      cases found
    · rw [shape] at ran
      cases ran
      exact same messages _
  | LookupExisting tag name =>
    cases ran
    exact ⟨id, .refl s, fun _ => rfl⟩
  | LookupBase name =>
    cases ran
    exact ⟨id, .refl s, fun _ => rfl⟩
  | Visit cb =>
    obtain ⟨final, visited, ended⟩ := Fallible.map_ok.mp ran
    cases ended
    exact .of_keeps (Visit_keeps visited)
  | LoadFromYaml root =>
    obtain ⟨final, loaded, ended⟩ := Fallible.map_ok.mp ran
    cases ended
    exact .of_keeps (LoadFromYaml_keeps loaded)
  | use name f world =>
    cases ran
    exact .of_keeps ((modify_keeps s name f).trans ⟨.refl _, fun _ none => none, rfl⟩)

theorem step_performed {action : Action types φ σ}
    (stepped : s.step hashing yaml action = some next) :
    ∃ reply, s.perform hashing yaml action = .ok (next, reply) ∧ s.Performed next reply := by
  unfold step at stepped
  cases ran : s.perform hashing yaml action with
  | error fault =>
    rw [ran] at stepped
    cases stepped
  | ok result =>
    rw [ran] at stepped
    cases stepped
    exact ⟨result.2, rfl, perform_performed ran⟩

theorem run_extends {actions : List (Action types φ σ)}
    (ran : Transition.run (step hashing yaml) s actions = some next) : s.Extends next := by
  have keeps : ∀ middle action after, s.Extends middle → step hashing yaml middle action =
      some after → s.Extends after := by
    intro middle action after before stepped
    obtain ⟨_, -, performed⟩ := step_performed stepped
    exact before.trans performed.bound
  exact Transition.run_invariant keeps (.refl s) ran

/-- What the registry is good for, in one state of a run. -/
structure Faithful (hashing : Hashing) (yaml : YamlCpp) (s : TypedConfig types φ σ) : Prop where
  keys : ∀ it ∈ s.GetDatas.toList, it.2.getName = it.1 ∧ validName it.1 = true
  apart : ∀ it ∈ s.GetDatas.toList, ∀ other ∈ s.GetDatas.toList, it.2.ptr = other.2.ptr →
    it.1 = other.1
  kept : ∀ actions final, Transition.run (step hashing yaml) s actions = some final →
    s.Extends final
  found : ∀ name v, s.find name = some v → ∀ tag,
    (∀ default_value description, (s.Lookup hashing tag name default_value description).2 =
      .ok (if v.tag = tag then some v.ptr else none)) ∧
    s.LookupExisting tag name = if v.tag = tag then some v.ptr else none
  refused : ∀ action next reply, s.perform hashing yaml action = .ok (next, reply) →
    reply.Refuses → next.GetDatas = s.GetDatas

theorem find_of_mem {it : String × TypedVar types φ σ} (member : it ∈ s.GetDatas.toList) :
    s.find it.1 = some it.2 := by
  rw [find, HashedSet.find_eq_some_iff.mpr ⟨member, rfl⟩]
  rfl

theorem Lookup_of_bound (found : s.find name = some v) (tag : types.Tag)
    (default_value : types.Value tag) (description : String) :
    (s.Lookup hashing tag name default_value description).2 =
      .ok (if v.tag = tag then some v.ptr else none) := by
  rcases Lookup_cases hashing s tag name default_value description with
    ⟨w, messages, bound, shape⟩ | ⟨unbound, -⟩ | ⟨unbound, -⟩
  · obtain rfl := Option.some.inj (found.symm.trans bound)
    rw [shape]
  · exact absurd (found.symm.trans unbound) (Option.some_ne_none v)
  · exact absurd (found.symm.trans unbound) (Option.some_ne_none v)

theorem Sound.faithful (sound : s.Sound) : s.Faithful hashing yaml := by
  refine ⟨fun it member => sound.named _ _ (find_of_mem member),
    fun it member other also => sound.apart _ _ _ _ (find_of_mem member) (find_of_mem also),
    fun _ _ ran => run_extends ran, fun name v found tag => ⟨Lookup_of_bound found tag, ?_⟩,
    fun _ _ _ ran => (perform_performed ran).refused⟩
  rw [LookupExisting, found]

/-- In every state of every run from the empty registry, each name is bound to the variable of
that name, which it stays bound to; a lookup finds it at its type only, and one that finds nothing
changes nothing. -/
theorem everyState_faithful (hashing : Hashing) (yaml : YamlCpp) (world : σ)
    (actions : List (Action types φ σ)) :
    Transition.EveryState (step hashing yaml) (Faithful hashing yaml)
      ({ world := world } : TypedConfig types φ σ) actions := by
  have initial : ({ world := world } : TypedConfig types φ σ).Sound :=
    ⟨fun _ _ => nofun, fun _ _ => nofun, fun _ _ _ _ => nofun⟩
  refine Transition.everyState_of_invariant (fun _ sound => Sound.faithful sound) ?_ initial
  intro s action next sound stepped
  obtain ⟨_, -, performed⟩ := step_performed stepped
  exact performed.sound sound

end TypedConfig

end Chord
