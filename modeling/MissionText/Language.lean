/-
  The languages that have an interchange file.

  Catalogs tag translations with English names, interchange files with
  two-letter codes.  Czech has the code `cz`, as in the game.
-/
import MissionText.Text.LowerCase
import MissionText.Text.Space

namespace MissionText

/-- A language with an interchange file. -/
inductive Language where
  | english
  | czech
  | french
  | spanish
  | italian
  | polish
  | portuguese
  | russian
  | german
  | korean
  | japanese
  deriving Repr, DecidableEq

namespace Language

/-- Every language, in the order in which files are looked up. -/
def all : List Language :=
  [english, czech, french, spanish, italian, polish, portuguese, russian, german, korean,
    japanese]

/-- The code of a language in interchange files. -/
def code : Language → String
  | english => "en"
  | czech => "cz"
  | french => "fr"
  | spanish => "es"
  | italian => "it"
  | polish => "pl"
  | portuguese => "pt"
  | russian => "ru"
  | german => "de"
  | korean => "ko"
  | japanese => "ja"

/-- The tag of a language in catalogs. -/
def tag : Language → String
  | english => "English"
  | czech => "Czech"
  | french => "French"
  | spanish => "Spanish"
  | italian => "Italian"
  | polish => "Polish"
  | portuguese => "Portuguese"
  | russian => "Russian"
  | german => "German"
  | korean => "Korean"
  | japanese => "Japanese"

/-- The language of a code, in any case and with white space around it. -/
def ofCode? (code : String) : Option Language :=
  all.find? fun l => sameAscii l.code (trimmed code)

/-- The tag for a code, empty if the code is unknown. -/
def tagOfCode (code : String) : String :=
  ((ofCode? code).map tag).getD ""

end Language

end MissionText
