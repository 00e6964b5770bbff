import NetworkingLab.Foundation.CachingResolver
import NetworkingLab.Foundation.Scan

/-!
# The tables of the name service

`DNS` and `HDNS` are text files of host names and addresses, separated by white
space.  Both servers look a name up by reading two words at a time from the
start of the file until the first one is the name.
-/

namespace NetworkingLab.NameService

open NetworkingLab.Foundation.CString
open NetworkingLab.Foundation.CachingResolver
open NetworkingLab.Foundation.Scan
open NetworkingLab.Foundation.Words

/-- A word that fits the arrays of 30 bytes with its terminator. -/
structure Token where
  text : List Byte
  nonempty : text ≠ []
  solid : Solid isspace text
  nulFree : NulFree text
  short : text.length < 30
  deriving DecidableEq

/-- A token of one letter. -/
def letter (c : Byte) (visible : isspace c = false ∧ c ≠ 0) : Token where
  text := [c]
  nonempty := List.cons_ne_nil _ _
  solid := by simpa [Solid] using visible.1
  nulFree := by simpa using visible.2
  short := by simp

/-- The word "a". -/
def letterA : Token :=
  letter 97 (by decide)

/-- The word "b". -/
def letterB : Token :=
  letter 98 (by decide)

/-- The word "1". -/
def digitOne : Token :=
  letter 49 (by decide)

/-- The words of a list of pairs. -/
def pairWords (pairs : List (Token × Token)) : List (List Byte) :=
  pairs.flatMap fun pair => [pair.1.text, pair.2.text]

/-- The file consists of these pairs. -/
def Lists (file : List Byte) (pairs : List (Token × Token)) : Prop :=
  words isspace file = pairWords pairs

instance (file : List Byte) (pairs : List (Token × Token)) :
    Decidable (Lists file pairs) :=
  inferInstanceAs (Decidable (_ = _))

theorem pairWords_append (first second : List (Token × Token)) :
    pairWords (first ++ second) = pairWords first ++ pairWords second :=
  List.flatMap_append

/-- The outcome of a search, with the two arrays it has used. -/
structure Search where
  found : Bool
  hostbuf : List Byte
  ipbuf : List Byte

/--
The search loop of both servers: two words are read, also at the end of the
file, before the first of them is tested.  The number bounds the rounds.
-/
def search (hostname : List Byte) :
    Nat → List Byte → List Byte → List Byte → Option Search
  | 0, _, _, _ => none
  | rounds + 1, hostbuf, ipbuf, fp =>
      match fscanf hostbuf fp with
      | none => none
      | some host =>
          match fscanf ipbuf host.rest with
          | none => none
          | some ip =>
              if host.read < 0 then
                some ⟨false, host.array, ip.array⟩
              else if cString hostname = cString host.array then
                some ⟨true, host.array, ip.array⟩
              else
                search hostname rounds host.array ip.array ip.rest

/-- What a search for a name has to find. -/
structure Finds (pairs : List (Token × Token)) (name : Token)
    (result : Search) : Prop where
  hostbuf : result.hostbuf.length = 30
  ipbuf : result.ipbuf.length = 30
  hit : ∀ ip, find pairs name = some ip →
    result.found = true ∧ cString result.ipbuf = ip.text
  miss : find pairs name = none → result.found = false

theorem Token.ext_text {first second : Token}
    (same : first.text = second.text) : first = second := by
  cases first
  cases second
  cases same
  rfl

/-- An array of 30 bytes with a token and its terminator in front. -/
theorem Token.stored_length
    (token : Token) {array : List Byte} (size : array.length = 30) :
    (overwrite (token.text ++ [0]) array).length = 30 := by
  have short := token.short
  rw [length_overwrite, size]
  simp only [List.length_append, List.length_singleton]
  omega

/-- One token of a file is read into an array of 30 bytes. -/
theorem Token.fscanf
    (token : Token) {array fp : List Byte} {later : List (List Byte)}
    (size : array.length = 30)
    (next : words isspace fp = token.text :: later) :
    ∃ rest,
      Foundation.Scan.fscanf array fp =
          some ⟨1, overwrite (token.text ++ [0]) array, rest⟩ ∧
        words isspace rest = later ∧ rest.length < fp.length := by
  apply fscanf_word next
  rw [size]
  exact token.short

/-- A search keeps the sizes of its arrays. -/
theorem search_length
    {hostname : List Byte} {rounds : Nat}
    {hostbuf ipbuf fp : List Byte} {result : Search}
    (searched : search hostname rounds hostbuf ipbuf fp = some result) :
    result.hostbuf.length = hostbuf.length ∧
      result.ipbuf.length = ipbuf.length := by
  induction rounds generalizing hostbuf ipbuf fp with
  | zero => cases searched
  | succ rounds induction =>
      rw [search] at searched
      split at searched
      · cases searched
      · next host readHost =>
          have hostSize := fscanf_length readHost
          split at searched
          · cases searched
          · next ip readIp =>
              have ipSize := fscanf_length readIp
              split_ifs at searched
              · cases searched
                exact ⟨hostSize, ipSize⟩
              · cases searched
                exact ⟨hostSize, ipSize⟩
              · rcases induction searched with ⟨host, ip⟩
                exact ⟨host.trans hostSize, ip.trans ipSize⟩

/-- The search finds the first pair for the name. -/
theorem search_finds
    {hostname : List Byte} {name : Token}
    (asked : cString hostname = name.text)
    (rounds : Nat) {hostbuf ipbuf fp : List Byte}
    (enough : fp.length < rounds)
    (hostSize : hostbuf.length = 30) (ipSize : ipbuf.length = 30)
    {pairs : List (Token × Token)} (lists : Lists fp pairs) :
    ∃ result, search hostname rounds hostbuf ipbuf fp = some result ∧
      Finds pairs name result := by
  induction rounds generalizing hostbuf ipbuf fp pairs with
  | zero => omega
  | succ rounds induction =>
      cases pairs with
      | nil =>
          refine ⟨⟨false, hostbuf, ipbuf⟩, ?_, ?_⟩
          · simp [search, fscanf_eof _ lists, fscanf_eof _ (words_nil _)]
          · exact ⟨hostSize, ipSize, by simp, fun _ => rfl⟩
      | cons pair pairs =>
          rcases pair with ⟨host, ip⟩
          rcases host.fscanf hostSize lists with
            ⟨afterHost, readHost, hostRest, hostShorter⟩
          rcases ip.fscanf ipSize hostRest with
            ⟨afterIp, readIp, ipRest, ipShorter⟩
          have hostStored := host.stored_length hostSize
          have ipStored := ip.stored_length ipSize
          have hostText := cString_stored host.nulFree hostbuf
          by_cases same : host = name
          · have matched : cString hostname =
                cString (overwrite (host.text ++ [0]) hostbuf) := by
              rw [hostText, asked, same]
            refine
              ⟨⟨true, overwrite (host.text ++ [0]) hostbuf,
                overwrite (ip.text ++ [0]) ipbuf⟩, ?_,
                hostStored, ipStored, ?_, ?_⟩
            · simp [search, readHost, readIp, matched]
            · intro address found
              rw [find_cons, if_pos same] at found
              cases found
              exact ⟨rfl, cString_stored ip.nulFree ipbuf⟩
            · intro missing
              rw [find_cons, if_pos same] at missing
              cases missing
          · have different : cString hostname ≠
                cString (overwrite (host.text ++ [0]) hostbuf) := by
              rw [hostText, asked]
              intro equal
              exact same (Token.ext_text equal.symm)
            rcases induction (show afterIp.length < rounds by omega)
                hostStored ipStored ipRest with
              ⟨result, searched, finds⟩
            refine ⟨result, ?_, finds.hostbuf, finds.ipbuf, ?_, ?_⟩
            · simp [search, readHost, readIp, different, searched]
            · intro address found
              rw [find_cons, if_neg same] at found
              exact finds.hit address found
            · intro missing
              rw [find_cons, if_neg same] at missing
              exact finds.miss missing

end NetworkingLab.NameService
