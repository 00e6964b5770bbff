import NetworkingLab.FileService.Login

/-!
# The verdict on a login

The server replies to the pair of the login file that has the received user
name, but goes on to the end of the file, where it replies that the user name
was not found.

`answered_iff` says for which logins the server sends one verdict, and the
right one: those of users that are not in the file.
-/

namespace NetworkingLab.FileService

open NetworkingLab.Foundation.CString
open NetworkingLab.Foundation.Scan
open NetworkingLab.Foundation.Words
open NetworkingLab.NameService (recvfrom)

/-- The string literal of a reply. -/
def Message.text : Message → List Byte
  | .loginSucess =>
      [108, 111, 103, 105, 110, 32, 115, 117, 99, 101, 115, 115]
  | .authenticationFailure =>
      [97, 117, 116, 104, 101, 110, 116, 105, 99, 97, 116, 105, 111, 110,
        32, 102, 97, 105, 108, 117, 114, 101]
  | .usernameNotFound =>
      [117, 115, 101, 114, 110, 97, 109, 101, 32, 110, 111, 116, 32, 102,
        111, 117, 110, 100]

/-- The 20 bytes that are sent, with what stands behind the literal. -/
def Message.datagram (behind : Message → List Byte) (message : Message) :
    List Byte :=
  (message.text ++ 0 :: behind message).take 20

/-- A file of pairs of user names and passwords, with distinct user names. -/
structure LoginFile where
  contents : List Byte
  nulFree : NulFree contents
  paired : (words isspace contents).length % 2 = 0
  distinct : ((twos (words isspace contents)).map Prod.fst).Nodup

def LoginFile.pairs (file : LoginFile) : List (List Byte × List Byte) :=
  twos (words isspace file.contents)

/-- What should be replied. -/
def verdict (pairs : List (List Byte × List Byte))
    (username passwd : List Byte) : Message :=
  if (username, passwd) ∈ pairs then
    .loginSucess
  else if username ∈ pairs.map Prod.fst then
    .authenticationFailure
  else
    .usernameNotFound

/-! ## The replies to the pairs -/

/-- A pair of the file is a pair of strings. -/
theorem LoginFile.plain
    (file : LoginFile) {pair : List Byte × List Byte}
    (member : pair ∈ file.pairs) :
    cString pair.1 = pair.1 ∧ cString pair.2 = pair.2 := by
  have inside := mem_of_mem_twos (show (pair.1, pair.2) ∈ _ from member)
  exact ⟨cString_of_mem_words file.nulFree inside.1,
    cString_of_mem_words file.nulFree inside.2⟩

/-- A pair of another user does not matter. -/
theorem verdict_cons_of_ne
    {pair : List Byte × List Byte} {username : List Byte}
    (other : username ≠ pair.1)
    (later : List (List Byte × List Byte)) (passwd : List Byte) :
    verdict (pair :: later) username passwd =
      verdict later username passwd := by
  have listed : (username, passwd) ∈ pair :: later ↔
      (username, passwd) ∈ later := by
    rw [List.mem_cons, or_iff_right]
    intro same
    exact other (congrArg Prod.fst same)
  have named : username ∈ (pair :: later).map Prod.fst ↔
      username ∈ later.map Prod.fst := by
    rw [List.map_cons, List.mem_cons, or_iff_right other]
  simp only [verdict, listed, named]

/-- The first pair of a user decides, if there is no other. -/
theorem verdict_cons_self
    {pair : List Byte × List Byte}
    {later : List (List Byte × List Byte)}
    (absent : pair.1 ∉ later.map Prod.fst) (passwd : List Byte) :
    verdict (pair :: later) pair.1 passwd =
      if passwd = pair.2 then
        .loginSucess
      else
        .authenticationFailure := by
  have listed : (pair.1, passwd) ∈ pair :: later ↔ passwd = pair.2 := by
    rw [List.mem_cons]
    constructor
    · rintro (same | behind)
      · exact congrArg Prod.snd same
      · exact absurd (List.mem_map_of_mem (f := Prod.fst) behind) absent
    · intro right
      exact Or.inl (Prod.ext rfl right)
  have named : pair.1 ∈ (pair :: later).map Prod.fst :=
    List.mem_cons_self
  simp only [verdict, listed, named, if_true]

/-- Only the pair with the user name is replied to. -/
theorem flatMap_reply
    {pairs : List (List Byte × List Byte)} {username passwd : List Byte}
    (plain : ∀ pair ∈ pairs,
      cString pair.1 = pair.1 ∧ cString pair.2 = pair.2)
    (distinct : (pairs.map Prod.fst).Nodup) :
    pairs.flatMap (reply username passwd) =
      if cString username ∈ pairs.map Prod.fst then
        [verdict pairs (cString username) (cString passwd)]
      else
        [] := by
  induction pairs with
  | nil => rfl
  | cons pair later induction =>
      have here := plain pair List.mem_cons_self
      rw [List.map_cons, List.nodup_cons] at distinct
      have rest := induction
        (fun other member => plain other (List.mem_cons_of_mem _ member))
        distinct.2
      rw [List.flatMap_cons, rest, reply, here.1, here.2]
      by_cases known : cString username = pair.1
      · rw [known, if_pos rfl, if_neg distinct.1, List.append_nil,
          List.map_cons, if_pos List.mem_cons_self,
          verdict_cons_self distinct.1]
        split
        · rfl
        · rfl
      · have named : cString username ∈ (pair :: later).map Prod.fst ↔
            cString username ∈ later.map Prod.fst := by
          rw [List.map_cons, List.mem_cons, or_iff_right known]
        simp only [if_neg known, List.nil_append, named,
          verdict_cons_of_ne known]

/-! ## The verdict of the server -/

/--
Exactly one datagram is sent before the command is read, and its string is the
right verdict.
-/
def Answered (memory : Memory) (behind : Message → List Byte)
    (file : LoginFile) (user pass : List Byte)
    (datagrams : List (List Byte)) : Prop :=
  ∃ session sent,
    serve memory file.contents user pass datagrams = some session ∧
      session.messages.map (Message.datagram behind) = [sent] ∧
      cString sent =
        (verdict file.pairs (cString (recvfrom 10 user memory.username))
          (cString (recvfrom 10 pass memory.passwd))).text

section Sessions

variable {memory : Memory} {file : LoginFile} {user pass : List Byte}

theorem serve_of_stuck
    (sized : memory.Sized)
    (stuck : Stuck file.contents (recvfrom 10 user memory.username)
      (recvfrom 10 pass memory.passwd) memory.ubuffer memory.pbuffer)
    (datagrams : List (List Byte)) :
    serve memory file.contents user pass datagrams = none := by
  have loop := (@loginLoop_spec _ _ _ _ file.contents
    (NameService.recvfrom_length sized.username)
    (NameService.recvfrom_length sized.passwd)
    (file.contents.length + 1) (Nat.lt_succ_self _) sized.ubuffer
    sized.pbuffer).1 stuck
  simp only [serve, loop]

/-- A user of the file gets the verdict and is then not found. -/
theorem serve_of_not_stuck
    (sized : memory.Sized)
    (free : ¬ Stuck file.contents (recvfrom 10 user memory.username)
      (recvfrom 10 pass memory.passwd) memory.ubuffer memory.pbuffer)
    (datagrams : List (List Byte)) :
    ∃ entered, serve memory file.contents user pass datagrams =
      some
        ⟨(if cString (recvfrom 10 user memory.username) ∈
              file.pairs.map Prod.fst then
            [verdict file.pairs
              (cString (recvfrom 10 user memory.username))
              (cString (recvfrom 10 pass memory.passwd))]
          else
            []) ++ [.usernameNotFound], entered⟩ := by
  have loop := (@loginLoop_spec _ _ _ _ file.contents
    (NameService.recvfrom_length sized.username)
    (NameService.recvfrom_length sized.passwd)
    (file.contents.length + 1) (Nat.lt_succ_self _) sized.ubuffer
    sized.pbuffer).2 free
  have replies := @flatMap_reply file.pairs
    (recvfrom 10 user memory.username)
    (recvfrom 10 pass memory.passwd) (fun _ member => file.plain member)
    file.distinct
  rw [← LoginFile.pairs, replies] at loop
  cases datagrams with
  | nil => exact ⟨false, by simp only [serve, loop]⟩
  | cons datagram rest =>
      rcases exists_command datagram memory.command with
        ⟨command, received⟩
      simp only [serve, loop, received, List.singleton_append,
        strcmp_command, Option.map_some]
      exact ⟨_, rfl⟩

end Sessions

/-- The string of a datagram that says that the user was not found. -/
theorem cString_usernameNotFound (behind : Message → List Byte) :
    cString (Message.usernameNotFound.datagram behind) =
      Message.usernameNotFound.text := by
  have short : Message.usernameNotFound.text.length = 18 := rfl
  have free : NulFree Message.usernameNotFound.text := by decide
  rw [Message.datagram, List.take_append, short,
    List.take_of_length_le (by decide)]
  exact cString_append_zero free _

/--
The server sends one verdict, and the right one, if and only if its loop is not
stuck and the user is not in the file.
-/
theorem answered_iff
    (memory : Memory) (sized : memory.Sized)
    (behind : Message → List Byte) (file : LoginFile)
    (user pass : List Byte) (datagrams : List (List Byte)) :
    Answered memory behind file user pass datagrams ↔
      ¬ Stuck file.contents (recvfrom 10 user memory.username)
          (recvfrom 10 pass memory.passwd) memory.ubuffer
          memory.pbuffer ∧
        cString (recvfrom 10 user memory.username) ∉
          file.pairs.map Prod.fst := by
  by_cases stuck : Stuck file.contents (recvfrom 10 user memory.username)
      (recvfrom 10 pass memory.passwd) memory.ubuffer memory.pbuffer
  · constructor
    · rintro ⟨session, sent, served, _⟩
      rw [serve_of_stuck sized stuck] at served
      cases served
    · intro free
      exact absurd stuck free.1
  · rcases serve_of_not_stuck sized stuck datagrams with
      ⟨entered, serves⟩
    by_cases known : cString (recvfrom 10 user memory.username) ∈
        file.pairs.map Prod.fst
    · rw [if_pos known] at serves
      constructor
      · rintro ⟨session, sent, served, single, _⟩
        rw [serves] at served
        cases served
        cases single
      · intro free
        exact absurd known free.2
    · rw [if_neg known] at serves
      constructor
      · intro _
        exact ⟨stuck, known⟩
      · intro _
        refine ⟨_, _, serves, rfl, ?_⟩
        have unlisted : ∀ word,
            (cString (recvfrom 10 user memory.username), word) ∉
              file.pairs :=
          fun word member =>
            known (List.mem_map_of_mem (f := Prod.fst) member)
        rw [verdict, if_neg (unlisted _), if_neg known]
        exact cString_usernameNotFound behind

/-- The login file "a b". -/
def loginAb : LoginFile where
  contents := [97, 32, 98, 10]
  nulFree := by decide
  paired := by decide
  distinct := by decide

/-- User x is told that it is not in the file, and nothing else. -/
theorem answered_unlisted :
    Answered zeroMemory (fun _ => []) loginAb [120, 0] [121, 0] [] := by
  apply (answered_iff zeroMemory zeroMemory_sized _ loginAb _ _ _).mpr
  exact ⟨not_stuck_of_short (by decide) (by decide), by decide⟩

/-- User a logs in with b and is also told that it was not found. -/
theorem listed_user_not_found :
    ¬ ∀ memory : Memory, memory.Sized →
        ∀ (behind : Message → List Byte) (file : LoginFile)
          (user pass : List Byte) (datagrams : List (List Byte)),
          Answered memory behind file user pass datagrams := by
  intro always
  rcases always zeroMemory zeroMemory_sized (fun _ => []) loginAb [97, 0]
      [98, 0] [] with ⟨session, sent, served, single, _⟩
  have serves : serve zeroMemory loginAb.contents [97, 0] [98, 0] [] =
      some ⟨[.loginSucess, .usernameNotFound], false⟩ := by
    decide
  rw [serves] at served
  cases served
  cases single

end NetworkingLab.FileService
