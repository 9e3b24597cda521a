import WebIdl.Text.Replace

/-!
# Tweaks

A tweak replaces one piece of text by another before a file is parsed, and is taken back when the
file is written.  Both ways it touches the first occurrence only.
-/

namespace WebIdl

/-- A piece of text and what stands in for it while the file is parsed. -/
structure Tweak where
  target : String
  replacement : String
deriving DecidableEq, Repr

namespace Tweak

/-- Puts the replacement in, if the target occurs. -/
def substitute? (tweak : Tweak) (text : String) : Option String :=
  (Text.replaceFirst? tweak.target.toList tweak.replacement.toList text.toList).map String.ofList

/-- Puts the target back, if the replacement occurs. -/
def revert (tweak : Tweak) (text : String) : String :=
  ((Text.replaceFirst? tweak.replacement.toList tweak.target.toList text.toList).map
    String.ofList).getD text

/-- Applies tweaks in order, and lists those that found something to replace. -/
def applyAll : List Tweak → String → String × List Tweak
  | [], text => (text, [])
  | tweak :: rest, text =>
    match tweak.substitute? text with
    | none => applyAll rest text
    | some changed =>
      let (result, applied) := applyAll rest changed
      (result, tweak :: applied)

/-- Takes tweaks back, the last one first. -/
def revertAll (tweaks : List Tweak) (text : String) : String :=
  tweaks.foldr revert text

end Tweak

end WebIdl
