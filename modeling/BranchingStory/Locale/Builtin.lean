import BranchingStory.Locale.Registry

/-!
# The built-in languages

The languages of a story that brings no registry of its own.  English is the
reference language.
-/

namespace BranchingStory.Registry

/-- The built-in languages. -/
def builtinLanguages : List Language :=
  [{ code := "schinese", displayName := "简体中文" },
   { code := "tchinese", displayName := "繁體中文", parent := some "schinese" },
   { code := "english", displayName := "English" },
   { code := "japanese", displayName := "日本語" },
   { code := "koreana", displayName := "한국어" },
   { code := "french", displayName := "Français" },
   { code := "german", displayName := "Deutsch" },
   { code := "spanish", displayName := "Español (España)" },
   { code := "latam", displayName := "Español (Latinoamérica)", parent := some "spanish" },
   { code := "brazilian", displayName := "Português (Brasil)", parent := some "portuguese" },
   { code := "portuguese", displayName := "Português" },
   { code := "russian", displayName := "Русский" },
   { code := "italian", displayName := "Italiano" },
   { code := "dutch", displayName := "Nederlands" },
   { code := "polish", displayName := "Polski" },
   { code := "turkish", displayName := "Türkçe" },
   { code := "thai", displayName := "ไทย" },
   { code := "vietnamese", displayName := "Tiếng Việt" },
   { code := "indonesian", displayName := "Bahasa Indonesia" },
   { code := "ukrainian", displayName := "Українська" },
   { code := "czech", displayName := "Čeština" },
   { code := "hungarian", displayName := "Magyar" },
   { code := "romanian", displayName := "Română" },
   { code := "bulgarian", displayName := "Български" },
   { code := "greek", displayName := "Ελληνικά" },
   { code := "danish", displayName := "Dansk" },
   { code := "finnish", displayName := "Suomi" },
   { code := "norwegian", displayName := "Norsk" },
   { code := "swedish", displayName := "Svenska" },
   { code := "arabic", displayName := "العربية", direction := .rightToLeft }]

/-- The code of the built-in reference language. -/
def builtinReference : String := "english"

/-- The registry of the built-in languages. -/
def builtin : Registry :=
  match build builtinReference builtinLanguages with
  | .ok registry => registry
  | .error _ => { reference := builtinReference, entries := ∅ }

end BranchingStory.Registry
