import OlpEdgeSdk.Base.Occurrences

/-!
# Credentials in URLs

Before a URL is logged, the values of its `app_id` and `app_code` are overwritten with
asterisks. The names are looked for as texts, once each, from the first question mark on.

SOURCE: Credentials.cpp
-/

set_option autoImplicit false

namespace OlpEdgeSdk.Model.Credentials

open OlpEdgeSdk.Base

/-- `std::string::find` -/
def find (str needle : List Char) (pos : ℕ) : Option ℕ :=
  if pos ≤ str.length then
    (cutAt needle (str.drop pos)).map fun (before, _) => pos + before.length
  else none

/-- `std::fill` between two places of a string. -/
def fill (str : List Char) (first last : ℕ) (c : Char) : List Char :=
  str.take first ++ List.replicate (last - first) c ++ str.drop last

/-- SOURCE: Credentials.cpp:23-48 -/
def censorCredentialsPart (url : List Char) (argumentsStart : ℕ)
    (credentialsPartName : List Char) : List Char :=
  match find url credentialsPartName argumentsStart with
  | none => url
  | some argumentStart =>
    let valueStart := argumentStart + credentialsPartName.length
    let valueEnd := (find url ['&'] valueStart).getD url.length
    fill url valueStart valueEnd '*'

/-- SOURCE: Credentials.cpp:60 -/
def appIdName : List Char := "app_id=".toList

/-- SOURCE: Credentials.cpp:61 -/
def appCodeName : List Char := "app_code=".toList

/-- SOURCE: Credentials.cpp:53-66 -/
def censorCredentialsInUrl (url : List Char) : List Char :=
  match find url ['?'] 0 with
  | none => url
  | some argumentsStartPos =>
    let url := censorCredentialsPart url argumentsStartPos appIdName
    censorCredentialsPart url argumentsStartPos appCodeName

end OlpEdgeSdk.Model.Credentials
