import ChordServer.AppenderInheritance
import ChordServer.LoggerViews

set_option autoImplicit false

namespace Chord

open LogSystem

namespace LogSystem

variable {s t u : LogSystem} {p : LoggerPtr}

/-- A change of one logger, and of no appender of another one, shows at its name only. -/
theorem Changed.view (changed : t.Changed u p) (wf : t.WellFormed) (inside : p < t.loggerCount)
    (separate : t.Separate) {name : String} (called : (t.loggers p).m_name = name)
    (others : ∀ a < t.appenderCount, a ∉ (t.loggers p).m_appenders →
      (u.appenders a).view = (t.appenders a).view)
    (change : LoggerView → LoggerView)
    (self : (u.loggers p).view u.appenders = change ((t.loggers p).view t.appenders))
    (n : String) : u.view n = if n = name then change (t.view n) else t.view n := by
  have named := changed.named wf inside n
  rw [called] at named
  by_cases here : n = name
  · rw [if_pos here] at named ⊢
    have old : t.named n = t.loggers p := by rw [here, ← called, wf.named_name inside]
    rw [LogSystem.view, named, self, LogSystem.view, old]
  · rw [if_neg here] at named ⊢
    refine view_congr named fun a held => ?_
    obtain ⟨q, bound, own, found⟩ := wf.registered_of_held held
    have apart : q ≠ p := by
      rintro rfl
      exact here (own.symm.trans called)
    rw [found] at held
    exact others a (wf.held q bound a held) (separate q bound p inside apart a held)

end LogSystem

namespace Logging

open LogIniter

variable {s t u : LogSystem} {p : LoggerPtr} {name : String}

theorem got_updated (got : LoggerManager.Got s name t p) :
    Updated s t (· = name) (only name fun view => view) := by
  have same : t.Changed t p := ⟨rfl, rfl, rfl, Nat.le_refl _, fun _ _ => rfl, rfl, rfl,
    got.wellFormed.held p got.inside⟩
  exact updated_of_got got same id id fun _ n => (ite_self _).symm

end Logging

end Chord
