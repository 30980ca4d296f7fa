import InterpTree.Pattern
import InterpTree.Text.Rune

/-!
Groups of characters that have a name: the short escapes, the classes in brackets and colons, and
the properties of characters. Patterns are matched with texts in ASCII, so of a property it counts
which characters of ASCII have it.
-/

namespace InterpTree

namespace Pattern

def digits : List (Nat × Nat) := [(48, 57)]
def capitals : List (Nat × Nat) := [(65, 90)]
def smallLetters : List (Nat × Nat) := [(97, 122)]
def letters : List (Nat × Nat) := capitals ++ smallLetters
def controls : List (Nat × Nat) := [(0, 31), (127, 127)]
def ascii : List (Nat × Nat) := [(0, 127)]

/-- The ranges that hold single characters. -/
def chars (s : String) : List (Nat × Nat) := s.toList.map fun c => (c.toNat, c.toNat)

/-- Digits, white space and words have short escapes, which in upper case stand for the other
characters. -/
def shortEscape? : Char → Option (List (Nat × Nat) × Bool)
  | 'd' => some (digits, false)
  | 'D' => some (digits, true)
  | 's' => some (chars "\t\n\x0c\r ", false)
  | 'S' => some (chars "\t\n\x0c\r ", true)
  | 'w' => some (digits ++ letters ++ chars "_", false)
  | 'W' => some (digits ++ letters ++ chars "_", true)
  | _ => none

/-- The classes that are written between brackets and colons. -/
def classes : List (String × List (Nat × Nat)) := [
  ("alnum", digits ++ letters),
  ("alpha", letters),
  ("ascii", ascii),
  ("blank", chars "\t "),
  ("cntrl", controls),
  ("digit", digits),
  ("graph", [(33, 126)]),
  ("lower", smallLetters),
  ("print", [(32, 126)]),
  ("punct", [(33, 47), (58, 64), (91, 96), (123, 126)]),
  ("space", chars "\t\n\x0b\x0c\r "),
  ("upper", capitals),
  ("word", digits ++ letters ++ chars "_"),
  ("xdigit", digits ++ [(65, 70), (97, 102)])]

/-- What of ASCII is punctuation: connectors, dashes, what opens, what closes, and the rest. -/
def punctuation : List (Nat × Nat) :=
  [(33, 35), (37, 42), (44, 47), (58, 59), (63, 64), (91, 93), (95, 95), (123, 123), (125, 125)]

/-- What of ASCII is a symbol. -/
def symbols : List (Nat × Nat) := chars "$+<=>^\x60|~"

/-- The properties that some characters of ASCII have, in lower case and without what separates
words, and those characters. -/
def properties : List (String × List (Nat × Nat)) := [
  ("any", ascii), ("ascii", ascii), ("assigned", ascii),
  ("latin", letters),
  ("common", [(0, 64), (91, 96), (123, 127)]),
  ("l", letters), ("letter", letters),
  ("lc", letters), ("casedletter", letters),
  ("lu", capitals), ("uppercaseletter", capitals),
  ("ll", smallLetters), ("lowercaseletter", smallLetters),
  ("n", digits), ("number", digits), ("nd", digits), ("decimalnumber", digits), ("digit", digits),
  ("p", punctuation), ("punctuation", punctuation), ("punct", punctuation),
  ("pc", chars "_"), ("connectorpunctuation", chars "_"),
  ("pd", chars "-"), ("dashpunctuation", chars "-"),
  ("ps", chars "([\x7b"), ("openpunctuation", chars "([\x7b"),
  ("pe", chars ")]\x7d"), ("closepunctuation", chars ")]\x7d"),
  ("po", chars "!\"#%&'*,./:;?@\\"), ("otherpunctuation", chars "!\"#%&'*,./:;?@\\"),
  ("s", symbols), ("symbol", symbols),
  ("sc", chars "$"), ("currencysymbol", chars "$"),
  ("sk", chars "^\x60"), ("modifiersymbol", chars "^\x60"),
  ("sm", chars "+<=>|~"), ("mathsymbol", chars "+<=>|~"),
  ("z", chars " "), ("separator", chars " "), ("zs", chars " "), ("spaceseparator", chars " "),
  ("c", controls), ("other", controls), ("cc", controls), ("control", controls),
  ("cntrl", controls)]

/-- The properties that no character of ASCII has. -/
def propertiesBeyond : String :=
  "cf format cn unassigned co privateuse cs surrogate lm modifierletter lo otherletter lt " ++
  "titlecaseletter m mark combiningmark mc spacingmark me enclosingmark mn nonspacingmark nl " ++
  "letternumber no othernumber pf finalpunctuation pi initialpunctuation so othersymbol zl " ++
  "lineseparator zp paragraphseparator"

/-- The scripts without characters of ASCII. -/
def scriptsBeyond : String :=
  "adlam ahom anatolianhieroglyphs arabic armenian avestan balinese bamum bassavah batak " ++
  "bengali beriaerfe bhaiksuki bopomofo brahmi braille buginese buhid canadianaboriginal carian " ++
  "caucasianalbanian chakma cham cherokee chorasmian coptic cuneiform cypriot cyprominoan " ++
  "cyrillic deseret devanagari divesakuru dogra duployan egyptianhieroglyphs elbasan elymaic " ++
  "ethiopic garay georgian glagolitic gothic grantha greek gujarati gunjalagondi gurmukhi " ++
  "gurungkhema han hangul hanifirohingya hanunoo hatran hebrew hiragana imperialaramaic " ++
  "inherited inscriptionalpahlavi inscriptionalparthian javanese kaithi kannada katakana kawi " ++
  "kayahli kharoshthi khitansmallscript khmer khojki khudawadi kiratrai lao lepcha limbu " ++
  "lineara linearb lisu lycian lydian mahajani makasar malayalam mandaic manichaean marchen " ++
  "masaramgondi medefaidrin meeteimayek mendekikakui meroiticcursive meroitichieroglyphs miao " ++
  "modi mongolian mro multani myanmar nabataean nagmundari nandinagari newtailue newa nko nushu " ++
  "nyiakengpuachuehmong ogham olchiki olonal oldhungarian olditalic oldnortharabian oldpermic " ++
  "oldpersian oldsogdian oldsoutharabian oldturkic olduyghur oriya osage osmanya pahawhhmong " ++
  "palmyrene paucinhau phagspa phoenician psalterpahlavi rejang runic samaritan saurashtra " ++
  "sharada shavian siddham sidetic signwriting sinhala sogdian sorasompeng soyombo sundanese " ++
  "sunuwar sylotinagri syriac tagalog tagbanwa taile taitham taiviet taiyo takri tamil tangsa " ++
  "tangut telugu thaana thai tibetan tifinagh tirhuta todhri tolongsiki toto tulutigalari " ++
  "ugaritic vai vithkuqi wancho warangciti yezidi yi zanabazarsquare"

/-- The words of a list. -/
def listed (words : String) : List Text := Text.splitAt Text.space words

/-- What of ASCII has a property, if there is a property of that name. -/
def property? (name : List Char) : Option (List (Nat × Nat)) :=
  let name := (name.filter fun c => c != '_' && c != '-' && c != ' ').map Char.toLower
  match properties.lookup (String.ofList name) with
  | some ranges => some ranges
  | none =>
    let beyond := listed propertiesBeyond ++ listed scriptsBeyond
    if beyond.contains (Text.ofCharacters name) then some [] else none

end Pattern

end InterpTree
