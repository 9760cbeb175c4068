/-!
# Characters of YAML

The classes of characters that readers and writers of YAML tell apart.
-/

namespace LayeredConfig.Yaml

/-- The line breaks of YAML. -/
def isBreak (c : Char) : Bool :=
  c = '\n' || c = '\r' || c = '\u0085' || c = '\u2028' || c = '\u2029'

/-- Spaces and tabs. -/
def isBlank (c : Char) : Bool := c = ' ' || c = '\t'

/-- Blanks, line breaks and NUL. -/
def isGap (c : Char) : Bool := isBlank c || isBreak c || c = '\x00'

/-- Whether what comes before a text is set apart from it. -/
def gapFollows : List Char → Bool
  | [] => true
  | c :: _ => isGap c

/-- Characters of anchors, of the handles of tags and of the names of directives. -/
def isWordChar (c : Char) : Bool := c.isAlphanum || c = '_' || c = '-'

/-- The indicators that end a plain scalar in a flow collection. -/
def isFlowIndicator (c : Char) : Bool := c = ',' || c = '[' || c = ']' || c = '{' || c = '}'

/-- The indicators that no plain scalar starts with. -/
def isIndicator (c : Char) : Bool :=
  isFlowIndicator c || c = '#' || c = '&' || c = '*' || c = '!' || c = '|' || c = '>' || c = '\'' ||
    c = '"' || c = '%' || c = '@' || c = '\x60'

/-- The indicators that a plain scalar starts with unless a gap follows them. -/
def isLooseIndicator (c : Char) : Bool := c = '?' || c = ':' || c = '-'

/-- Characters that a YAML text may hold. -/
def isAllowed (c : Char) : Bool :=
  c = '\t' || c = '\n' || c = '\r' || c = '\u0085' || (' ' ≤ c && c ≤ '~') ||
    ('\u00a0' ≤ c && c ≠ '\ufffe' && c ≠ '\uffff')

/-- A text that marks the start or the end of a document where it begins a line. -/
def isDocumentMark : List Char → Bool
  | '-' :: '-' :: '-' :: s => gapFollows s
  | '.' :: '.' :: '.' :: s => gapFollows s
  | _ => false

end LayeredConfig.Yaml
