import NativeExports.Text.CharClass

/-!
# Width of text

Tables are aligned by the columns that a terminal gives to a text. Most characters have a width of
their own: two columns for the wide ones, none for those that join the character in front of them,
one for the others. Some sequences are drawn as a single sign, however: pictures that are joined to
each other, flags, ligatures. The width of a character therefore depends on what follows it, and a
text is measured from its end to its beginning.
-/

namespace NativeExports.Text

/-- The last part of a sequence of letters that may be drawn as one sign. -/
inductive LigatureEnd where
  /-- An alef, which joins a lam. -/
  | alef
  /-- A lamed, which joins an alef in Hebrew. -/
  | lamed
  /-- A ya, which joins a vowel sign in Buginese. -/
  | ya
  /-- A vowel sign and a ya, which join the letter a in Buginese. -/
  | vowelYa
  /-- A consonant of Tifinagh, which joins another one. -/
  | consonant
  /-- A consonant of Tifinagh behind the sign that joins consonants. -/
  | joinedConsonant
  /-- The second half of a tone mark in Lisu. -/
  | tone
  /-- An i, which joins a consonant in Old Turkic. -/
  | orkhonI
  /-- A Khmer letter that may stand below the line. -/
  | subscript
  deriving DecidableEq, Repr

/-- What follows a character, as far as the width of the character depends on it. -/
inductive Follower where
  /-- Nothing that matters. -/
  | plain
  /-- A line feed. -/
  | lineFeed
  /-- A picture. -/
  | picture
  /-- A skin tone. -/
  | skinTone
  /-- One letter of a flag. -/
  | flagLetter
  /-- Several letters of flags. -/
  | flagLetters
  /-- A joiner in front of a picture. -/
  | joined
  /-- The frame of a key in front of a joiner and a picture. -/
  | joinedKey
  /-- A letter of a flag in front of a joiner and a picture. -/
  | joinedFlagLetter
  /-- Whole flags in front of a joiner and a picture. -/
  | joinedFlags
  /-- A letter and whole flags in front of a joiner and a picture. -/
  | joinedFlagsAndLetter
  /-- The end of the tags of a flag, with the number of letters behind them that were passed. -/
  | tagLetters (count : Nat)
  /-- The same for tags that begin with digits. -/
  | tagDigits (count : Nat)
  /-- The vowel sign e of Kirat Rai. -/
  | vowelE
  /-- The vowel sign ai of Kirat Rai. -/
  | vowelAi
  /-- The end of a ligature; `joiner` tells whether a joiner stands in front of it. -/
  | ligature (last : LigatureEnd) (joiner : Bool)
  deriving DecidableEq, Repr

/-- How a selector wants the character in front of it to be shown. -/
inductive Selector where
  | picture
  | text
  | fullWidth
  deriving DecidableEq, Repr

/-- What follows a character: the selector directly behind it, and what else follows. -/
structure Context where
  follower : Follower
  selector : Option Selector
  deriving DecidableEq, Repr

namespace Context

/-- Something that follows, without a selector. -/
def of (follower : Follower) : Context :=
  ⟨follower, none⟩

/-- What follows a character in front of a selector. Only a ligature goes on across the selector,
and pictures that are joined do so if it asks for a picture. -/
def select (context : Context) (selector : Selector) : Context :=
  match selector, context.follower with
  | _, .ligature _ _ | .picture, .joined | .picture, .joinedKey =>
    { context with selector := some selector }
  | _, _ => ⟨.plain, some selector⟩

/-- What follows a character that its selector does not apply to. -/
def unselected (context : Context) : Context :=
  match context.selector, context.follower with
  | none, _ => context
  | some _, .ligature last joiner => of (.ligature last joiner)
  | some _, _ => of .plain

end Context

/-- Whether a character lies between two others. -/
def isBetween (low high : Nat) (c : Char) : Bool :=
  low ≤ c.toNat && c.toNat ≤ high

/-- The characters that make one picture of those beside them. -/
def joiner : Char := Char.ofNat 0x200D

def isFlagLetter : Char → Bool :=
  isBetween 0x1F1E6 0x1F1FF

def isSkinTone : Char → Bool :=
  isBetween 0x1F3FB 0x1F3FF

/-- Whether a character is a letter in the tags of a flag. -/
def isTagLetter : Char → Bool :=
  isBetween 0xE0061 0xE007A

/-- Whether a character is a digit in the tags of a flag. -/
def isTagDigit : Char → Bool :=
  isBetween 0xE0030 0xE0039

/-- Whether a selector can turn the picture of a character into text of one column. -/
def hasNarrowText (c : Char) : Bool :=
  CharClass.selectable.has c && CharClass.pictures.has c && !isBetween 0x1F200 0x1F2FF c

/-- Whether a character is a quotation mark that has a form with the width of an ideograph. -/
def isWidenedQuote (c : Char) : Bool :=
  [0x2018, 0x2019, 0x201C, 0x201D].contains c.toNat

/-- The number of columns of a character by itself, and what it is to the character in front. -/
def ownWidth (c : Char) : Nat × Follower :=
  match c.toNat with
  | 0x5DC => (1, .ligature .lamed false)
  | 0x17D8 => (3, .plain)
  | 0x1A10 => (1, .ligature .ya false)
  | 0xA4FC | 0xA4FD => (1, .ligature .tone false)
  | 0x10C03 => (1, .ligature .orkhonI false)
  | 0x16D67 => (1, .vowelE)
  | 0x16D68 => (1, .vowelAi)
  | _ =>
    if CharClass.alef.has c then (1, .ligature .alef false)
    else if CharClass.khmerSubscript.has c then (1, .ligature .subscript false)
    else if CharClass.tifinaghConsonant.has c then (1, .ligature .consonant false)
    else if isFlagLetter c then (1, .flagLetter)
    else if isSkinTone c then (2, .skinTone)
    else if CharClass.pictures.has c then (2, .picture)
    else if CharClass.zeroWidth.has c then (0, .plain)
    else if CharClass.doubleWidth.has c then (2, .plain)
    else (1, .plain)

/-- What a character adds to the width of the ligature that follows it, if it belongs to it. -/
def widthInLigature (c : Char) (last : LigatureEnd) (joins : Bool) : Option (Int × Follower) :=
  let n := c.toNat
  let isConsonant := CharClass.tifinaghConsonant.has c
  match last with
  | .alef =>
    if CharClass.lam.has c then some (0, .plain)
    else if CharClass.zeroWidth.has c && !CharClass.joinBreaking.has c then
      some (0, .ligature .alef joins)
    else none
  | .lamed => if joins && n == 0x5D0 then some (0, .plain) else none
  | .ya => if joins && n == 0x1A17 then some (0, .ligature .vowelYa false) else none
  | .vowelYa => if n == 0x1A15 then some (0, .plain) else none
  | .consonant =>
    if n == 0x2D7F then some (1, .ligature .joinedConsonant false)
    else if joins && isConsonant then some (0, .plain)
    else none
  | .joinedConsonant => if isConsonant then some (-1, .plain) else none
  | .tone => if isBetween 0xA4F8 0xA4FB c then some (0, .plain) else none
  | .orkhonI => if joins && n == 0x10C32 then some (0, .plain) else none
  | .subscript => if n == 0x17D2 then some (-1, .plain) else none

/-- What a character adds to the width of the picture that follows it behind a joiner, if it is part
of that picture. -/
def widthBeforeJoiner (c : Char) : Option (Int × Follower) :=
  if c.toNat == 0x20E3 then some (0, .joinedKey)
  else if isFlagLetter c then some (1, .joinedFlagLetter)
  else if isSkinTone c then some (0, .skinTone)
  else if c.toNat == 0xE007F then some (0, .tagLetters 0)
  else if CharClass.pictures.has c then some (0, .picture)
  else none

/-- What a character adds to the width of the sequence that follows it, if it belongs to it. -/
def widthInSequence (c : Char) (follower : Follower) : Option (Int × Follower) :=
  let n := c.toNat
  match follower with
  | .plain | .lineFeed | .joinedKey => none
  | .ligature last joins => widthInLigature c last joins
  | .picture => if c == joiner then some (0, .joined) else none
  | .skinTone =>
    if CharClass.skinTonable.has c then some (0, .picture)
    else if c == joiner then some (0, .joined)
    else none
  | .flagLetter => if isFlagLetter c then some (1, .flagLetters) else none
  | .flagLetters =>
    if isFlagLetter c then some (1, .flagLetters)
    else if c == joiner then some (0, .joined)
    else none
  | .joined => widthBeforeJoiner c
  | .joinedFlagLetter => if isFlagLetter c then some (-1, .joinedFlags) else none
  | .joinedFlags =>
    if isFlagLetter c then some (3, .joinedFlagsAndLetter)
    else if c == joiner then some (0, .joined)
    else none
  | .joinedFlagsAndLetter =>
    if isFlagLetter c then some (-1, .joinedFlags)
    else if c == joiner then some (0, .joined)
    else none
  | .tagLetters count =>
    if isTagLetter c && count < 6 then some (0, .tagLetters (count + 1))
    else if isTagDigit c && count < 5 then some (0, .tagDigits 1)
    else if n == 0x1F3F4 && 3 ≤ count then some (0, .picture)
    else none
  | .tagDigits count =>
    if isTagDigit c && count < 3 then some (0, .tagDigits (count + 1))
    else if n == 0x1F3F4 && count == 3 then some (0, .picture)
    else none
  | .vowelE =>
    match n with
    | 0x16D63 | 0x16D69 => some (0, .plain)
    | 0x16D67 => some (0, .vowelAi)
    | 0x16D68 => some (1, .vowelE)
    | _ => none
  | .vowelAi => if n == 0x16D63 then some (0, .plain) else none

/-- What a character in front of everything else adds to the width, if it lets a ligature go on
behind it: an invisible mark or a joiner. -/
def widthInside (c : Char) (follower : Follower) : Option (Int × Follower) :=
  match follower with
  | .ligature .alef _ => none
  | .ligature last joins =>
    if c == joiner then some (0, .ligature last true)
    else if CharClass.ligatureTransparent.has c then some (0, .ligature last joins)
    else none
  | _ => none

/-- What a character behind the controls and the Latin letters without accents adds to the width. -/
def widthBefore (c : Char) (context : Context) : Int × Context :=
  let n := c.toNat
  if n == 0xFE0F then (0, context.unselected.select .picture)
  else if n == 0xFE0E then (0, context.unselected.select .text)
  else if n == 0xFE01 then (0, context.unselected.select .fullWidth)
  else if context.selector == some .text && hasNarrowText c then (1, .of .plain)
  else if context.selector == some .fullWidth && isWidenedQuote c then (2, .of .plain)
  else
    let follower := context.unselected.follower
    match widthInside c follower <|> widthInSequence c follower with
    | some (width, follower) => (width, .of follower)
    | none =>
      let (width, follower) := ownWidth c
      (width, .of follower)

/-- What a character adds to the width of the text that follows it, and what it is to the character
in front. -/
def addedWidth (c : Char) (context : Context) : Int × Context :=
  if context.selector == some .picture && CharClass.selectable.has c then
    match context.follower with
    | .joined | .joinedKey => (0, .of .picture)
    | _ => (2, .of .picture)
  else if c == '\n' then (1, .of .lineFeed)
  else if c == '\r' && context == .of .lineFeed then (0, .of .plain)
  else if c.toNat ≤ 0xA0 then (1, .of .plain)
  else widthBefore c context

/-- The number of columns of a text. -/
def displayWidth (text : String) : Nat :=
  let (width, _) := text.toList.foldr
    (fun c (width, context) =>
      let (added, context) := addedWidth c context
      (width + added, context))
    ((0 : Int), Context.of .plain)
  width.toNat

end NativeExports.Text
