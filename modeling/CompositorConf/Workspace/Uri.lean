import CompositorConf.Text.Percent

/-!
# Document URIs

A URI is kept as it is written; two URIs are the same if their texts are.

* `Uri.isReference` decides which texts are URI references: an optional scheme,
  an optional authority, a path, and an optional query and fragment, in ASCII
  and with two hexadecimal digits after every `%`;
* `Uri.path` is the file path of a URI: what follows `file://`, with percent
  escapes replaced, or the whole text of any other URI;
* `fileName?` is the last name in a path.
-/

namespace CompositorConf

open Text

namespace UriSyntax

/-- Letters, digits and marks without a meaning of their own. -/
def isUnreserved (character : Char) : Bool :=
  character.isAlphanum || character ∈ ['-', '.', '_', '~']

def isSubDelimiter (character : Char) : Bool :=
  character ∈ ['!', '$', '&', '\'', '(', ')', '*', '+', ',', ';', '=']

/-- Whether every character of a text is allowed or part of an escape. -/
def allAllowed (allowed : Char → Bool) : List Char → Bool
  | '%' :: high :: low :: rest =>
      (hexValue? high).isSome && (hexValue? low).isSome &&
        allAllowed allowed rest
  | '%' :: _ => false
  | character :: rest => allowed character && allAllowed allowed rest
  | [] => true

def isNameCharacter (character : Char) : Bool :=
  isUnreserved character || isSubDelimiter character

def isUserCharacter (character : Char) : Bool :=
  isNameCharacter character || character == ':'

def isPathCharacter (character : Char) : Bool :=
  isUserCharacter character || character == '@' || character == '/'

def isQueryCharacter (character : Char) : Bool :=
  isPathCharacter character || character == '?'

/-- Whether a text is a scheme: a letter, then letters, digits and `+`, `-` or
`.`. -/
def isScheme : List Char → Bool
  | [] => false
  | first :: rest =>
      first.isAlpha &&
        rest.all fun character =>
          character.isAlphanum || character ∈ ['+', '-', '.']

/-- Whether a text is a number of a dotted address: at most 255, without a
leading zero. -/
def isOctet (text : List Char) : Bool :=
  text.all Char.isDigit && !text.isEmpty && text.length ≤ 3 &&
    (text.length == 1 || text.head? != some '0') &&
    text.foldl (fun value digit => 10 * value + (digit.toNat - '0'.toNat)) 0 ≤ 255

/-- Whether a text is an address of four numbers with dots between them. -/
def isDottedAddress (text : List Char) : Bool :=
  let octets := text.splitOn '.'
  octets.length == 4 && octets.all isOctet

def isGroup (text : List Char) : Bool :=
  !text.isEmpty && text.length ≤ 4 &&
    text.all fun character => (hexValue? character).isSome

/-- Number of groups of sixteen bits in a part of an address in brackets, if it
is well formed.  A dotted address counts for two and can only stand last. -/
def groupCount? (mayEndDotted : Bool) (text : List Char) : Option Nat :=
  if text.isEmpty then
    some 0
  else
    let groups := text.splitOn ':'
    match groups.getLast? with
    | some last =>
        if mayEndDotted && isDottedAddress last then
          if groups.dropLast.all isGroup then some (groups.length + 1) else none
        else if groups.all isGroup then
          some groups.length
        else
          none
    | none => none

/-- A text cut at the first pair of colons. -/
def cutAtPair : List Char → Option (List Char × List Char)
  | ':' :: ':' :: rest => some ([], rest)
  | character :: rest =>
      (cutAtPair rest).map fun (before, after) => (character :: before, after)
  | [] => none

/-- Whether a text is an address of eight groups; a pair of colons stands for
one or more groups of zeros. -/
def isLongAddress (text : List Char) : Bool :=
  match cutAtPair text with
  | none => groupCount? true text == some 8
  | some (before, after) =>
      match groupCount? false before, groupCount? true after with
      | some first, some second => first + second ≤ 7
      | _, _ => false

def isHostAndPort (text : List Char) : Bool :=
  match text with
  | '[' :: rest =>
      let address := rest.takeWhile (· ≠ ']')
      match rest.dropWhile (· ≠ ']') with
      | [']'] => isLongAddress address
      | ']' :: ':' :: port => isLongAddress address && port.all Char.isDigit
      | _ => false
  | _ =>
      let host := text.takeWhile (· ≠ ':')
      let port := (text.dropWhile (· ≠ ':')).drop 1
      allAllowed isNameCharacter host && port.all Char.isDigit

/-- Whether a text is an authority: a host with an optional port, and optional
user information before an `@`. -/
def isAuthority (text : List Char) : Bool :=
  match text.dropWhile (· ≠ '@') with
  | _ :: host =>
      allAllowed isUserCharacter (text.takeWhile (· ≠ '@')) &&
        isHostAndPort host
  | [] => isHostAndPort text

/-- Whether a text is a path with an optional authority before it. -/
def isHierarchy (text : List Char) : Bool :=
  match text with
  | '/' :: '/' :: rest =>
      isAuthority (rest.takeWhile (· ≠ '/')) &&
        allAllowed isPathCharacter (rest.dropWhile (· ≠ '/'))
  | _ => allAllowed isPathCharacter text

/-- Whether a text is the part of a reference before query and fragment.  A
colon in the first segment ends a scheme. -/
def isBody (text : List Char) : Bool :=
  let segment := text.takeWhile (· ≠ '/')
  if ':' ∈ segment then
    isScheme (segment.takeWhile (· ≠ ':')) &&
      isHierarchy ((text.dropWhile (· ≠ ':')).drop 1)
  else
    isHierarchy text

def isReference (text : List Char) : Bool :=
  let beforeFragment := text.takeWhile (· ≠ '#')
  let fragment := (text.dropWhile (· ≠ '#')).drop 1
  let body := beforeFragment.takeWhile (· ≠ '?')
  let query := (beforeFragment.dropWhile (· ≠ '?')).drop 1
  isBody body && allAllowed isQueryCharacter query &&
    allAllowed isQueryCharacter fragment

end UriSyntax

structure Uri where
  text : String
  isReference_text : UriSyntax.isReference text.toList = true
  deriving DecidableEq, Repr

namespace Uri

def ofText? (text : String) : Option Uri :=
  if valid : UriSyntax.isReference text.toList = true then some ⟨text, valid⟩
  else none

def fileMark : List Char := "file://".toList

def path (uri : Uri) : String :=
  match List.isPrefixOf? fileMark uri.text.toList with
  | some rest => String.ofList (Percent.decode rest)
  | none => uri.text

end Uri

/-- The names in a path: what stands between its slashes, except for nothing at
all and a single dot. -/
def pathNames (path : String) : List String :=
  ((path.toList.splitOn '/').map String.ofList).filter fun name =>
    name ≠ "" ∧ name ≠ "."

/-- The last name in a path.  A path that ends in `..` has none. -/
def fileName? (path : String) : Option String :=
  (pathNames path).getLast?.filter fun name => name ≠ ".."

end CompositorConf
