/-
Which lines a context shows.

A context shows the lines around its own: as many before it and behind it as its window
says, and as the text has.  The lower end of the window stops at the first line.  The
upper end is a sum of two 64-bit words, and any such word can be the window of a sound
configuration.  So the right lines are shown just if the sum fits in a word
(`Context.window_shown_iff`); a sum that wraps around puts the end before the line itself.
-/
import Scrutiny.Config.Basic

namespace Scrutiny

/-- The lines of a text, as contexts show them. -/
def textLines (source : String) : List String :=
  (splitLines source.toList).map String.ofList

namespace Context

/-- The first line of a window, in integers. -/
def windowFirst (line window : Nat) : Int := max 1 (line - window)

/-- The last line of a window, in integers. -/
def windowLast (source : String) (line window : Nat) : Int :=
  min (textLines source).length (line + window)

/-- The context shows its line and `window` lines on either side, as far as they exist. -/
structure ShowsWindow (source : String) (line window : Nat) (context : Context) : Prop where
  first : (context.firstLine : Int) = windowFirst line window
  length : (context.surrounding.length : Int)
    = windowLast source line window - windowFirst line window + 1
  lines : ∀ k : Nat, windowFirst line window ≤ k → k ≤ windowLast source line window →
    context.surrounding[k - context.firstLine]? = (textLines source)[k - 1]?
  own : ∃ text, context.snippet = some text ∧
    context.surrounding[line - context.firstLine]? = some text
  once : context.numbered.countP (·.1 == line) = 1

/-! ### What a context is made of -/

variable {source : String} {line window : Nat}

theorem ofSource_of_le (hpos : 1 ≤ line) (hline : line ≤ (textLines source).length)
    (column : Option Nat) (window : Nat) : ofSource source line column window
      = ⟨line, column, (textLines source)[line - 1]?,
        ((textLines source).take (min (windowEnd line window) (textLines source).length)).drop
          (line - 1 - window), line - 1 - window + 1⟩ := by
  have hthere : ¬ (line = 0 ∨ (textLines source).length < line) := by omega
  have hzero : line ≠ 0 := by omega
  simp only [ofSource]
  rw [if_neg hzero]
  exact if_neg hthere

/-- Numbers that count on from the first: each of the range occurs once, and no other. -/
theorem countP_mapIdx_add (first k : Nat) (texts : List String) :
    (texts.mapIdx fun i text => (first + i, text)).countP (·.1 == k)
      = if first ≤ k ∧ k < first + texts.length then 1 else 0 := by
  induction texts generalizing first with
  | nil =>
    rw [if_neg (by simp only [List.length_nil]; omega)]
    rfl
  | cons text texts ih =>
    have hshift : (texts.mapIdx fun i text => (first + (i + 1), text))
        = texts.mapIdx fun i text => (first + 1 + i, text) := by
      congr 1
      funext i text
      rw [Nat.add_right_comm, Nat.add_assoc]
    rw [List.mapIdx_cons, List.countP_cons, hshift, ih, List.length_cons]
    by_cases hk : first = k
    · rw [if_neg (by omega), if_pos (by simp [hk]), if_pos (by omega)]
    · simp only [beq_iff_eq, hk, Nat.add_zero, if_false]
      congr 1
      simp only [eq_iff_iff]
      omega

/-- **The line itself is shown, and once, just if the window's end fits in a word.** -/
theorem countP_numbered_own (hpos : 1 ≤ line) (hline : line ≤ (textLines source).length)
    (column : Option Nat) (hword : window < Nat.pow 2 64) :
    (ofSource source line column window).numbered.countP (·.1 == line)
      = if line + window < Nat.pow 2 64 then 1 else 0 := by
  have hends : line ≤ windowEnd line window ↔ line + window < Nat.pow 2 64 := by
    unfold windowEnd
    refine ⟨fun h => Nat.lt_of_not_le fun hwraps => ?_, fun h => ?_⟩
    · have := Nat.mod_le (line + window - Nat.pow 2 64) (Nat.pow 2 64)
      rw [Nat.mod_eq_sub_mod hwraps] at h
      omega
    · rw [Nat.mod_eq_of_lt h]
      exact Nat.le_add_right line window
  rw [numbered, ofSource_of_le hpos hline, countP_mapIdx_add]
  congr 1
  simp only [← hends, List.length_drop, List.length_take, eq_iff_iff]
  omega

theorem showsWindow_ofSource (hpos : 1 ≤ line) (hline : line ≤ (textLines source).length)
    (column : Option Nat) (hfits : line + window < Nat.pow 2 64) :
    (ofSource source line column window).ShowsWindow source line window := by
  have hend : windowEnd line window = line + window := Nat.mod_eq_of_lt hfits
  have hentry : ∀ k, line - 1 - window + 1 ≤ k → k ≤ min (line + window) (textLines source).length →
      (ofSource source line column window).surrounding[k - (line - 1 - window + 1)]?
        = (textLines source)[k - 1]? := by
    intro k hlow hhigh
    rw [ofSource_of_le hpos hline, hend, List.getElem?_drop, List.getElem?_take, if_pos (by omega)]
    congr 1
    omega
  have hfirst : (ofSource source line column window).firstLine = line - 1 - window + 1 := by
    rw [ofSource_of_le hpos hline]
  have hfirst_int : ((line - 1 - window + 1 : Nat) : Int) = windowFirst line window := by
    simp only [windowFirst]
    omega
  have hlast_int : ((min (line + window) (textLines source).length : Nat) : Int)
      = windowLast source line window := by
    simp only [windowLast]
    omega
  refine ⟨by rw [hfirst, hfirst_int], ?_, ?_, ?_, ?_⟩
  · rw [← hfirst_int, ← hlast_int, ofSource_of_le hpos hline, hend, List.length_drop,
      List.length_take]
    omega
  · intro k hlow hhigh
    rw [hfirst]
    exact hentry k (by omega) (by omega)
  · have hthere : line - 1 < (textLines source).length := by omega
    refine ⟨(textLines source)[line - 1], ?_, ?_⟩
    · rw [ofSource_of_le hpos hline]
      exact List.getElem?_eq_getElem hthere
    · rw [hfirst, hentry line (by omega) (by omega)]
      exact List.getElem?_eq_getElem hthere
  · rw [countP_numbered_own hpos hline column (by omega), if_pos hfits]

/-- **A window is shown right just if its end fits in a 64-bit word.**  Every word is the
window of some configuration without fault.  If the end does not fit, the line itself is not
among those shown. -/
theorem window_shown_iff (hpos : 1 ≤ line) (hline : line ≤ (textLines source).length)
    (column : Option Nat) (hword : window < Nat.pow 2 64) :
    (∃ config : Config, config.fault? = none ∧ config.contextLines = window) ∧
    ((ofSource source line column window).ShowsWindow source line window
      ↔ line + window < Nat.pow 2 64) ∧ (Nat.pow 2 64 ≤ line + window →
      ∀ entry ∈ (ofSource source line column window).numbered, entry.1 ≠ line) := by
  have hcount := countP_numbered_own hpos hline column hword
  refine ⟨⟨{ Config.default with contextLines := window }, rfl, rfl⟩, ⟨fun hshows => ?_,
    showsWindow_ofSource hpos hline column⟩, fun hwraps entry hentry hown => ?_⟩
  · refine Nat.lt_of_not_le fun hwraps => Nat.one_ne_zero ?_
    rw [← hshows.once, hcount, if_neg (Nat.not_lt.mpr hwraps)]
  · rw [if_neg (Nat.not_lt.mpr hwraps), List.countP_eq_zero] at hcount
    exact hcount entry hentry (by simp [hown])

/-- The middle one of three lines, with all there is on either side. -/
theorem window_shown_iff_middle :
    (ofSource "a\r\n\nb" 2 none 7).ShowsWindow "a\r\n\nb" 2 7 ∧
    (ofSource "a\r\n\nb" 2 none 7).surrounding = ["a", "", "b"] :=
  ⟨(window_shown_iff (by decide) (by decide +kernel) none (by decide)).2.1.mpr (by decide),
    by decide +kernel⟩

/-- With the widest window a configuration can ask for, the only line of a text is not shown. -/
theorem window_wraps_around :
    ({ Config.default with contextLines := 18446744073709551615 } : Config).fault? = none ∧
    1 ≤ (textLines "x").length ∧
    (ofSource "x" 1 none 18446744073709551615).surrounding = [] ∧
    ¬ (ofSource "x" 1 none 18446744073709551615).ShowsWindow "x" 1 18446744073709551615 := by
  have hnone : (ofSource "x" 1 none 18446744073709551615).surrounding = [] := by decide +kernel
  refine ⟨by decide, by decide +kernel, hnone, fun hshows => ?_⟩
  have honce := hshows.once
  rw [numbered, hnone] at honce
  exact absurd honce (by decide)

end Context

end Scrutiny
