import Mathlib.Data.List.Basic

set_option autoImplicit false

namespace Chord

/-- The `LogFormatter::FormatItem` subclasses, each with the data its
constructor keeps: all but two drop the string they are given. -/
inductive FormatItem
  | message
  | level
  | elapse
  | name
  | threadId
  | newLine
  | dateTime (m_format : String)
  | filename
  | line
  | fiberId
  | tab
  | string (m_string : String)
  deriving DecidableEq, Repr

/-- `DateTimeFormatItem(format)`: the empty format stands for the default. -/
def FormatItem.newDateTime (format : String) : FormatItem :=
  .dateTime (if format = "" then "%Y-%m-%d %H:%M:%S" else format)

namespace LogFormatter

/-- `str.substr(pos, len)` for a position inside the string. -/
def substr (str : List Char) (pos len : Nat) : List Char := (str.drop pos).take len

/-- The variables of the inner loop of `init()`. -/
structure Scan where
  n : Nat
  fmt_status : Nat := 0
  fmt_begin : Nat := 0
  str : List Char := []
  fmt : List Char := []

/-- The loop `while(n < m_pattern.size())` that reads the directive whose '%' is
at `i`. Each read of the pattern carries the proof of its bound. -/
def scanDirective (pattern : List Char) (i : Nat) (s : Scan) : Scan :=
  if inside : s.n < pattern.length then
    if s.fmt_status = 0 ∧ ¬ pattern[s.n].isAlpha ∧ pattern[s.n] ≠ '{' ∧ pattern[s.n] ≠ '}' then
      { s with str := substr pattern (i + 1) (s.n - i - 1) }
    else if s.fmt_status = 0 ∧ pattern[s.n] = '{' then
      scanDirective pattern i
        { s with str := substr pattern (i + 1) (s.n - i - 1), fmt_status := 1,
                 fmt_begin := s.n, n := s.n + 1 }
    else if s.fmt_status = 1 ∧ pattern[s.n] = '}' then
      { s with fmt := substr pattern (s.fmt_begin + 1) (s.n - s.fmt_begin - 1),
               fmt_status := 0, n := s.n + 1 }
    else
      scanDirective pattern i
        { s with n := s.n + 1,
                 str := if s.n + 1 = pattern.length ∧ s.str = [] then pattern.drop (i + 1)
                        else s.str }
  else s
termination_by pattern.length - s.n

/-- The inner loop never moves its cursor back. -/
theorem le_scanDirective (pattern : List Char) (i : Nat) (s : Scan) :
    s.n ≤ (scanDirective pattern i s).n := by
  fun_induction scanDirective pattern i s with
  | case1 s inside stop => exact Nat.le_refl _
  | case2 s inside stop opened ih => exact Nat.le_of_succ_le ih
  | case3 s inside stop opened closed => exact Nat.le_succ _
  | case4 s inside stop opened closed ih => exact Nat.le_of_succ_le ih
  | case5 s outside => exact Nat.le_refl _

/-- One entry of `vec`: text, format and type, where 0 is literal text and 1 a directive. -/
abbrev Token := List Char × List Char × Nat

/-- The variables of the outer loop of `init()`. -/
structure Init where
  nstr : List Char := []
  vec : List Token := []
  m_error : Bool := false

/-- `if(!nstr.empty()) { vec.push_back(make_tuple(nstr, "", 0)); nstr.clear(); }` -/
def Init.flush (s : Init) : Init :=
  if s.nstr = [] then s else { s with nstr := [], vec := s.vec ++ [(s.nstr, [], 0)] }

def Init.push (s : Init) (token : Token) : Init := { s with vec := s.vec ++ [token] }

/-- The loop `for (size_t i = 0; i < m_pattern.size(); i++)`. After a directive
`i = n - 1` is followed by the `i++` of the loop; an unclosed brace leaves `i`. -/
def initLoop (pattern : List Char) (i : Nat) (s : Init) : Init :=
  if inside : i < pattern.length then
    if pattern[i] ≠ '%' then
      initLoop pattern (i + 1) { s with nstr := s.nstr ++ [pattern[i]] }
    else if pattern[i + 1]? = some '%' then
      initLoop pattern (i + 1) { s with nstr := s.nstr ++ ['%'] }
    else
      let d := scanDirective pattern i { n := i + 1 }
      if d.fmt_status = 0 then
        initLoop pattern (d.n - 1 + 1) (s.flush.push (d.str, d.fmt, 1))
      else if d.fmt_status = 1 then
        initLoop pattern (i + 1)
          ({ s with m_error := true }.push ("<<pattern_error>>".toList, d.fmt, 0))
      else if d.fmt_status = 2 then
        initLoop pattern (d.n - 1 + 1) (s.flush.push (d.str, d.fmt, 1))
      else
        initLoop pattern (i + 1) s
  else s
termination_by pattern.length - i
decreasing_by
  all_goals
    have advanced := le_scanDirective pattern i { n := i + 1 }
    dsimp only at advanced
    omega

/-- The table `s_format_items` from directive names to item constructors. -/
def s_format_items : List (String × (String → FormatItem)) :=
  [("m", fun _ => .message), ("p", fun _ => .level), ("r", fun _ => .elapse),
   ("c", fun _ => .name), ("t", fun _ => .threadId), ("n", fun _ => .newLine),
   ("d", FormatItem.newDateTime), ("f", fun _ => .filename), ("l", fun _ => .line),
   ("F", fun _ => .fiberId), ("T", fun _ => .tab)]

/-- One round of the last loop of `init()`: the item and whether it sets `m_error`. -/
def makeItem : Token → FormatItem × Bool
  | (str, fmt, type) =>
      if type = 0 then (.string (String.ofList str), false)
      else
        match s_format_items.lookup (String.ofList str) with
        | none => (.string ("<<error_format %" ++ String.ofList str ++ ">>"), true)
        | some construct => (construct (String.ofList fmt), false)

/-- `LogFormatter::init()`: the items and the final `m_error`. -/
def init (pattern : String) : List FormatItem × Bool :=
  let s := (initLoop pattern.toList 0 {}).flush
  (s.vec.map fun token => (makeItem token).1,
    s.m_error || s.vec.any fun token => (makeItem token).2)

end LogFormatter

/-- A formatter is its pattern: only the constructor runs `init()`, and nothing
writes `m_items` or `m_error` afterwards. -/
structure LogFormatter where
  m_pattern : String
  deriving DecidableEq, Repr

namespace LogFormatter

def m_items (formatter : LogFormatter) : List FormatItem := (init formatter.m_pattern).1

def isError (formatter : LogFormatter) : Bool := (init formatter.m_pattern).2

def getPattern (formatter : LogFormatter) : String := formatter.m_pattern

end LogFormatter

end Chord
