import ChordServer.LoggerViews

set_option autoImplicit false

namespace Chord

open LogSystem

namespace LogSystem

end LogSystem

namespace Logger

end Logger

theorem LoggerManager.getLogger_puts (s : LogSystem) (name : String) :
    s.Puts [] (getLogger s name).1 := by
  unfold getLogger
  split
  · exact .refl s
  · exact puts_of_same rfl rfl rfl rfl

namespace LogIniter

variable {s t u : LogSystem}

end LogIniter

end Chord
