import StreamPipeline.Yaml.Implicit

/-!
# The style of a scalar

A text of several lines is best shown as a literal block, a text that unquoted says something else
between single quotes, and any other plainly. Each style has texts that it cannot hold; then
plain gives way to single quotes, and these and the literal block give way to double quotes, which
hold every text.
-/

namespace StreamPipeline.Yaml

/-- The ways to write a scalar. -/
inductive Style
  | plain
  | single
  | double
  | literal
  deriving DecidableEq, Repr

/-- Whether two neighbours in a text satisfy `p` and `q`. -/
def hasPair (p q : Char → Bool) : List Char → Bool
  | a :: b :: r => (p a && q b) || hasPair p q (b :: r)
  | _ => false

/-- Whether a space stands before a break. -/
def spaceBeforeBreak (cs : List Char) : Bool := hasPair (· == ' ') isBreak cs

/-- Whether a space stands behind a break. -/
def spaceAfterBreak (cs : List Char) : Bool := hasPair isBreak (· == ' ') cs

/-- Whether a plain scalar can start a text: no indicator, no sign of structure before a gap, no
marker of a document. -/
def startsPlain (cs : List Char) : Bool :=
  match cs with
  | [] => false
  | c :: r =>
    !isIndicator c && !((c == '?' || c == ':' || c == '-') && isGap (r.headD finish))
      && !(["---".toList, "...".toList].contains (cs.take 3))

/-- Whether a plain scalar can hold what follows the first character: no colon before a gap, no
number sign behind one. -/
def holdsPlain (cs : List Char) : Bool :=
  !hasPair (· == ':') isGap (cs ++ [finish]) && !hasPair isGap (· == '#') cs

/-- Whether a plain scalar can say the text. -/
def plainAllowed (cs : List Char) : Bool :=
  let outer := fun c => c == ' ' || isBreak c
  startsPlain cs && holdsPlain cs && !cs.any isBreak && cs.all isPrintable
    && !(cs.head?.any outer) && !(cs.getLast?.any outer)

/-- Whether single quotes can hold the text. -/
def singleAllowed (cs : List Char) : Bool :=
  cs.all isPrintable && !spaceBeforeBreak cs && !spaceAfterBreak cs

/-- Whether a literal block can hold the text. -/
def literalAllowed (cs : List Char) : Bool :=
  cs.all isPrintable && !spaceBeforeBreak cs && cs.getLast? != some ' '

/-- Single quotes, or double quotes where these cannot hold the text. -/
def quotedStyle (cs : List Char) : Style := if singleAllowed cs then .single else .double

/-- The style in which a text is written. -/
def styleOf (cs : List Char) : Style :=
  if cs.contains '\n' then (if literalAllowed cs then .literal else .double)
  else if saysOther cs || !plainAllowed cs then quotedStyle cs
  else .plain

end StreamPipeline.Yaml
