import SerialContract.Proofs.Firmware.Bundle
import SerialContract.Proofs.Firmware.Printing
import SerialContract.Proofs.Number.Digits

/-!
# What the parser's header defines

The header of the parser defines a name for every mark. Whatever the contract, the name means the mark.
-/

namespace SerialContract

namespace Firmware

open Template (parts fill)

/-- The line of the header that defines the name of a mark. -/
def Mark.definitionLine : Mark → String
  | .beginner => "#define ARGUMENT_BEGINNER \"\x7b\x7bargument_beginner\x7d\x7d\""
  | .ender => "#define ARGUMENT_ENDER \"\x7b\x7bargument_ender\x7d\x7d\""
  | .delimiter => "#define ARGUMENT_DELIMITER \"\x7b\x7bargument_delimiter\x7d\x7d\""
  | .assigner => "#define ARGUMENT_ASSIGNER \"\x7b\x7bargument_assigner\x7d\x7d\""
  | .terminator => "#define EXCHANGE_TERMINATOR \"\x7b\x7bexchange_terminator\x7d\x7d\""

/-- The lines of the header in front of these. -/
def headerStart : List String := [
  "#ifndef HARDSYNC_PARSER_H",
  "#define HARDSYNC_PARSER_H",
  "",
  "#include <string>",
  "",
  "#define MAX_ARGS \x7b\x7bmax_args\x7d\x7d"]

theorem parserHeader_eq : ∃ others, Skeleton.parserHeader =
    lines (headerStart ++ Mark.all.map Mark.definitionLine ++ others) :=
  ⟨_, rfl⟩

theorem definitions_append_newline (front rest : List Char) :
    definitions (front ++ '\n' :: rest) = definitions front ++ definitions rest := by
  rw [definitions, List.splitOn_append_cons_self, List.filterMap_append]
  rfl

theorem definitions_lines (texts : List String) :
    definitions (lines texts).toList = texts.flatMap fun text => definitions text.toList := by
  induction texts with
  | nil => rfl
  | cons text texts ih =>
      rw [lines_cons, line, String.toList_append, String.toList_append, List.append_assoc, List.flatMap_cons, ← ih]
      exact definitions_append_newline _ _

section Lines

variable {c : Contract} {handlers : List Handler}

theorem parts_definitionLine (m : Mark) : parts m.definitionLine =
    ("#define " ++ m.definedName ++ " \"").toList.map .plain ++ [.placeholder m.placeholder.toList, .plain '"'] := by
  cases m <;> decide +kernel

theorem definitions_definitionLine (m : Mark) :
    definitions (fill (replacements c handlers) (parts m.definitionLine)) = [(m.definedName.toList, [m.char])] := by
  rw [parts_definitionLine, Template.fill_append, Template.fill_plain]
  have hplaceholder : fill (replacements c handlers) [.placeholder m.placeholder.toList, .plain '"'] =
      (escaped m.char).toList ++ ['"'] := by
    simp [fill, Template.Part.filled, get?_mark]
  rw [hplaceholder]
  cases m <;> decide +kernel

theorem definitions_plain {text : String} {chars : List Char} (htext : text = String.ofList chars)
    (hparts : Template.partsAfter 0 chars = chars.map .plain) (hnone : definitions chars = []) :
    definitions (fill (replacements c handlers) (parts text)) = [] := by
  rw [Template.parts_of_chars htext, hparts, Template.fill_plain, hnone]

theorem parts_maxArgs : parts "#define MAX_ARGS \x7b\x7bmax_args\x7d\x7d" =
    "#define MAX_ARGS ".toList.map .plain ++ [.placeholder "max_args".toList] := by
  decide +kernel

/-- A number is no string literal. -/
theorem literal?_decimalDigits (n : Nat) : literal? (decimalDigits n) = none := by
  obtain ⟨c, rest, hdigits⟩ := List.exists_cons_of_ne_nil (decimalDigits_ne_nil n)
  have hdigit : c.isDigit := isDigit_of_mem_decimalDigits (n := n) (by rw [hdigits]; exact List.mem_cons_self)
  rw [hdigits, literal?]
  intro _ hquote
  cases hquote
  exact absurd hdigit (by decide)

theorem definitions_number (n : Nat) : definitions ("#define MAX_ARGS ".toList ++ decimalDigits n) = [] := by
  have hline : '\n' ∉ "#define MAX_ARGS ".toList ++ decimalDigits n := by
    rw [List.mem_append, not_or]
    exact ⟨by decide +kernel, fun hmem => absurd (isDigit_of_mem_decimalDigits hmem) (by decide)⟩
  have hdefine : "#define ".toList.isPrefixOf? ("#define MAX_ARGS ".toList ++ decimalDigits n) =
      some ("MAX_ARGS".toList ++ ' ' :: decimalDigits n) := by
    have hfront : "#define MAX_ARGS ".toList = "#define ".toList ++ "MAX_ARGS".toList ++ [' '] := by decide +kernel
    rw [List.isPrefixOf?_eq_some_iff_append_eq, hfront]
    simp only [List.append_assoc, List.singleton_append]
  have hcut : cutAt ' ' ("MAX_ARGS".toList ++ ' ' :: decimalDigits n) = some ("MAX_ARGS".toList, decimalDigits n) :=
    cutAt_append (by decide +kernel) _
  have hnone : definition? ("#define MAX_ARGS ".toList ++ decimalDigits n) = none := by
    rw [definition?, hdefine, Option.bind_eq_bind, Option.bind_some, hcut, Option.bind_eq_bind, Option.bind_some]
    change (literal? (decimalDigits n)).bind _ = none
    rw [literal?_decimalDigits, Option.bind_none]
  rw [definitions, List.splitOn_eq_singleton hline, List.filterMap_cons_none hnone, List.filterMap_nil]

theorem definitions_maxArgs :
    definitions (fill (replacements c handlers) (parts "#define MAX_ARGS \x7b\x7bmax_args\x7d\x7d")) = [] := by
  have hfilled : fill (replacements c handlers) [.placeholder "max_args".toList] =
      decimalDigits (capacity c.exchanges) := by
    have hget : (replacements c handlers).get? "max_args" = some (decimalText (capacity c.exchanges)) :=
      NameMap.get?_ofList_of_mem placeholders_nodup (List.mem_append_left _ List.mem_cons_self)
    simp [fill, Template.Part.filled, hget, decimalText]
  rw [parts_maxArgs, Template.fill_append, Template.fill_plain, hfilled]
  exact definitions_number _

theorem definitions_headerStart :
    headerStart.flatMap (fun text => definitions (fill (replacements c handlers) (parts text))) = [] := by
  rw [List.flatMap_eq_nil_iff]
  simp only [headerStart, List.forall_mem_cons]
  refine ⟨?_, ?_, ?_, ?_, ?_, definitions_maxArgs, List.forall_mem_nil _⟩
  all_goals exact definitions_plain rfl (by decide +kernel) (by decide +kernel)

end Lines

/-- The names of the marks are defined before all others. -/
theorem definitions_parserHeader {c : Contract} {handlers : List Handler} {header : String}
    (h : Template.populate Skeleton.parserHeader (replacements c handlers) = .ok header) :
    ∃ others, definitions header.toList = (Mark.all.map fun m => (m.definedName.toList, [m.char])) ++ others := by
  obtain ⟨others, hskeleton⟩ := parserHeader_eq
  have hmem : ("parser.h", Skeleton.parserHeader) ∈ skeletons := List.mem_cons_self
  rw [hskeleton] at h hmem
  rw [eq_lines_of_populate hmem h]
  have hlines : ∀ texts : List String, (texts.map (Template.filledLine (replacements c handlers))).flatMap
      (fun text => definitions text.toList) =
        texts.flatMap fun text => definitions (fill (replacements c handlers) (parts text)) := by
    intro texts
    simp only [List.flatMap_map, Template.filledLine, String.toList_ofList]
  refine ⟨others.flatMap fun text => definitions (fill (replacements c handlers) (parts text)), ?_⟩
  rw [definitions_lines, hlines, List.flatMap_append, List.flatMap_append, definitions_headerStart, List.flatMap_map]
  simp only [definitions_definitionLine, List.nil_append, List.map_eq_flatMap]

theorem lookup_definedName {c : Contract} {handlers : List Handler} {header : String}
    (h : Template.populate Skeleton.parserHeader (replacements c handlers) = .ok header) (m : Mark) :
    (definitions header.toList).lookup m.definedName.toList = some [m.char] := by
  obtain ⟨others, hdefinitions⟩ := definitions_parserHeader h
  have hmark : (Mark.all.map fun m => (m.definedName.toList, [m.char])).lookup m.definedName.toList = some [m.char] := by
    cases m <;> decide +kernel
  rw [hdefinitions, List.lookup_append, hmark, Option.some_or]

end Firmware

end SerialContract
