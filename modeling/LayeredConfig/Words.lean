import LayeredConfig.Text

/-!
# Words

Lists of words written in one text, separated by commas.
-/

namespace LayeredConfig

/-- Words in order of their first occurrence, without repetitions. -/
def firstOccurrences : List String → List String
  | [] => []
  | s :: rest => s :: (firstOccurrences rest).filter (· ≠ s)

/-- The trimmed fields between commas, the blank ones left out. -/
def commaWords (text : String) : List String :=
  ((Text.fields ',' text.toList).map Text.trim).filter (!·.isEmpty) |>.map String.ofList

/-- Words in the order of their code points, without repetitions. -/
def sortedWords (words : List String) : List String :=
  firstOccurrences (words.mergeSort fun a b => decide (a ≤ b))

/-- Whether a text holds nothing but white space. -/
def isBlankText (text : String) : Bool := text.toList.all Text.isBlank

end LayeredConfig
