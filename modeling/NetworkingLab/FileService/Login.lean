import NetworkingLab.NameService.Processes

/-!
# The login of the file server

The file server receives a user name and a password, goes through its file
`login` and tells the client what it has found.  Then it receives a command and
compares it with "1" to decide whether a file is to be received.

The file is a sequence of words, a user name and a password in turn.
`login_reports` shows that the replies say whether the pair is in the file;
`entered_listed_iff` shows that the decision to receive a file does not depend
on it.
-/

namespace NetworkingLab.FileService

open NetworkingLab.Foundation.CString
open NetworkingLab.Foundation.Scan
open NetworkingLab.Foundation.Words
open NetworkingLab.NameService (recvfrom)

/-- The replies to a login. -/
inductive Message where
  | loginSucess
  | authenticationFailure
  | usernameNotFound
  deriving DecidableEq

/--
The loop over the file `login`.  Two words are read and compared, also at the
end of the file; only the end of the file ends it.  The number bounds the
rounds.
-/
def loginLoop (username passwd : List Byte) :
    Nat → List Byte → List Byte → List Byte → Option (List Message)
  | 0, _, _, _ => none
  | rounds + 1, ubuffer, pbuffer, fp =>
      match fscanf ubuffer fp with
      | none => none
      | some user =>
          match fscanf pbuffer user.rest with
          | none => none
          | some pass =>
              match strcmp username user.array,
                strcmp passwd pass.array with
              | some cmp, some cmp1 =>
                  if pass.read < 0 then
                    some [.usernameNotFound]
                  else
                    let later :=
                      loginLoop username passwd rounds user.array
                        pass.array pass.rest
                    if cmp then
                      if cmp1 then
                        later.map (.loginSucess :: ·)
                      else
                        later.map (.authenticationFailure :: ·)
                    else
                      later
              | _, _ => none

/-- The memory of `main`: four blocks of 10 bytes, `command` and the next byte. -/
structure Memory where
  username : List Byte
  passwd : List Byte
  ubuffer : List Byte
  pbuffer : List Byte
  command : Byte
  behind : Byte

/-- The sizes of the blocks. -/
structure Memory.Sized (memory : Memory) : Prop where
  username : memory.username.length = 10
  passwd : memory.passwd.length = 10
  ubuffer : memory.ubuffer.length = 10
  pbuffer : memory.pbuffer.length = 10

/-- What the server has done: its replies, and whether it entered `rfile`. -/
structure Session where
  messages : List Message
  entered : Bool
  deriving DecidableEq

/--
The server from its first `recvfrom` to the test of the command.  If no
datagram follows the login it waits.
-/
def serve (memory : Memory) (login user pass : List Byte)
    (datagrams : List (List Byte)) : Option Session :=
  let username := recvfrom 10 user memory.username
  let passwd := recvfrom 10 pass memory.passwd
  match loginLoop username passwd (login.length + 1) memory.ubuffer
      memory.pbuffer login with
  | none => none
  | some messages =>
      match datagrams with
      | [] => some ⟨messages, false⟩
      | datagram :: _ =>
          (strcmp (recvfrom 1 datagram [memory.command] ++
              [memory.behind]) [49, 0]).map
            fun equal => ⟨messages, !equal⟩

/-! ## The login file -/

/-- The elements of a list in twos; a last single one is left out. -/
def twos {α : Type*} : List α → List (α × α)
  | first :: second :: rest => (first, second) :: twos rest
  | _ => []

/-- The pair of user name and password is in the login file. -/
def Listed (login username passwd : List Byte) : Prop :=
  (cString username, cString passwd) ∈ twos (words isspace login)

instance (login username passwd : List Byte) :
    Decidable (Listed login username passwd) :=
  inferInstanceAs (Decidable (_ ∈ _))

/--
The loop leaves its buffers: a word of the file does not fit, or a buffer is
compared that no word has been read into.
-/
def Stuck (login username passwd ubuffer pbuffer : List Byte) : Prop :=
  (∃ word ∈ words isspace login, 10 ≤ word.length) ∨
    (words isspace login = [] ∧ strcmp username ubuffer = none) ∨
    ((words isspace login).length ≤ 1 ∧ strcmp passwd pbuffer = none)

/-- What the server replies for a pair of words of the file. -/
def reply (username passwd : List Byte) (pair : List Byte × List Byte) :
    List Message :=
  if cString username = cString pair.1 then
    if cString passwd = cString pair.2 then
      [.loginSucess]
    else
      [.authenticationFailure]
  else
    []

/-- A word in a block of 10 bytes. -/
theorem stored_word
    {word array : List Byte} (short : word.length < 10)
    (size : array.length = 10) :
    (overwrite (word ++ [0]) array).length = 10 ∧
      0 ∈ overwrite (word ++ [0]) array ∧
      cString (overwrite (word ++ [0]) array) = cString word := by
  refine ⟨?_, by simp [overwrite], ?_⟩
  · rw [length_overwrite, size]
    rw [size, List.length_append]
    exact Nat.succ_le_of_lt short
  · rw [overwrite, List.append_assoc, List.singleton_append]
    exact cString_append_terminator word _

/-- A block is compared with a word that has been read. -/
theorem strcmp_word
    {text word array : List Byte} (text_size : text.length = 10)
    (short : word.length < 10) (size : array.length = 10) :
    strcmp text (overwrite (word ++ [0]) array) =
      some (decide (cString text = cString word)) := by
  rcases stored_word short size with ⟨length, terminated, stored⟩
  rw [strcmp_of_terminated (text_size.trans length.symm) terminated,
    stored]

/-! ## The rounds of the loop -/

section Rounds

variable
    {username passwd ubuffer pbuffer fp : List Byte} (rounds : Nat)

/-- At the end of the file both buffers are compared as they are. -/
theorem loginLoop_ended (ended : words isspace fp = []) :
    loginLoop username passwd (rounds + 1) ubuffer pbuffer fp =
      if strcmp username ubuffer = none ∨ strcmp passwd pbuffer = none then
        none
      else
        some [.usernameNotFound] := by
  have nothing : words isspace ([] : List Byte) = [] := words_nil _
  rw [loginLoop, fscanf_eof ubuffer ended]
  simp only [fscanf_eof pbuffer nothing]
  cases strcmp username ubuffer with
  | none => simp
  | some cmp => cases strcmp passwd pbuffer <;> simp

/-- A single word is left, and the password buffer stays as it is. -/
theorem loginLoop_single
    {user : List Byte} (single : words isspace fp = [user])
    (short : user.length < 10) (usernameSize : username.length = 10)
    (ubufferSize : ubuffer.length = 10) :
    loginLoop username passwd (rounds + 1) ubuffer pbuffer fp =
      if strcmp passwd pbuffer = none then
        none
      else
        some [.usernameNotFound] := by
  have fits : user.length < ubuffer.length := by
    rw [ubufferSize]
    exact short
  rcases fscanf_word single fits with ⟨rest, read, ended, _⟩
  rw [loginLoop, read]
  simp only [fscanf_eof pbuffer ended,
    strcmp_word usernameSize short ubufferSize]
  cases strcmp passwd pbuffer <;> simp

/-- A round with two words. -/
theorem loginLoop_pair
    {user pass : List Byte} {later : List (List Byte)}
    (next : words isspace fp = user :: pass :: later)
    (userShort : user.length < 10) (passShort : pass.length < 10)
    (usernameSize : username.length = 10)
    (passwdSize : passwd.length = 10)
    (ubufferSize : ubuffer.length = 10)
    (pbufferSize : pbuffer.length = 10) :
    ∃ rest, words isspace rest = later ∧ rest.length < fp.length ∧
      loginLoop username passwd (rounds + 1) ubuffer pbuffer fp =
        (loginLoop username passwd rounds
          (overwrite (user ++ [0]) ubuffer)
          (overwrite (pass ++ [0]) pbuffer) rest).map
            (reply username passwd (user, pass) ++ ·) := by
  have userFits : user.length < ubuffer.length := by
    rw [ubufferSize]
    exact userShort
  have passFits : pass.length < pbuffer.length := by
    rw [pbufferSize]
    exact passShort
  rcases fscanf_word next userFits with ⟨middle, readUser, left, shorter⟩
  rcases fscanf_word left passFits with ⟨rest, readPass, last, less⟩
  refine ⟨rest, last, less.trans shorter, ?_⟩
  rw [loginLoop, readUser]
  simp only [readPass, strcmp_word usernameSize userShort ubufferSize,
    strcmp_word passwdSize passShort pbufferSize]
  by_cases known : cString username = cString user
  · by_cases right : cString passwd = cString pass
    · simp [reply, known, right]
    · simp [reply, known, right]
  · simp [reply, known]

/-- A word that does not fit one of the buffers. -/
theorem loginLoop_long
    {user : List Byte} {later : List (List Byte)}
    (next : words isspace fp = user :: later)
    (ubufferSize : ubuffer.length = 10)
    (pbufferSize : pbuffer.length = 10)
    (long : 10 ≤ user.length ∨
      ∃ pass ∈ later.head?, 10 ≤ pass.length) :
    loginLoop username passwd (rounds + 1) ubuffer pbuffer fp = none := by
  by_cases userLong : 10 ≤ user.length
  · rw [← ubufferSize] at userLong
    rw [loginLoop, fscanf_overflow next userLong]
  · have fits : user.length < ubuffer.length := by
      rw [ubufferSize]
      exact Nat.not_le.mp userLong
    rcases long with absurdly | ⟨pass, head, passLong⟩
    · exact absurd absurdly userLong
    · rcases fscanf_word next fits with ⟨rest, read, left, _⟩
      rcases List.head?_eq_some_iff.mp head with ⟨others, rfl⟩
      rw [← pbufferSize] at passLong
      rw [loginLoop, read]
      simp only [fscanf_overflow left passLong]

end Rounds

/-! ## The whole loop -/

section Loop

variable {username passwd ubuffer pbuffer fp rest : List Byte}

theorem stuck_ended (ended : words isspace fp = []) :
    Stuck fp username passwd ubuffer pbuffer ↔
      strcmp username ubuffer = none ∨ strcmp passwd pbuffer = none := by
  simp [Stuck, ended]

theorem stuck_single
    {user : List Byte} (single : words isspace fp = [user])
    (short : user.length < 10) :
    Stuck fp username passwd ubuffer pbuffer ↔
      strcmp passwd pbuffer = none := by
  have fits := Nat.not_le.mpr short
  simp [Stuck, single, fits]

/-- Behind two words only the later words can be too long. -/
theorem stuck_pair
    {user pass : List Byte} {later : List (List Byte)}
    (next : words isspace fp = user :: pass :: later)
    (left : words isspace rest = later)
    (userShort : user.length < 10) (passShort : pass.length < 10)
    (usernameSize : username.length = 10)
    (passwdSize : passwd.length = 10)
    (ubufferSize : ubuffer.length = 10)
    (pbufferSize : pbuffer.length = 10) :
    Stuck fp username passwd ubuffer pbuffer ↔
      Stuck rest username passwd (overwrite (user ++ [0]) ubuffer)
        (overwrite (pass ++ [0]) pbuffer) := by
  have userFits := Nat.not_le.mpr userShort
  have passFits := Nat.not_le.mpr passShort
  simp [Stuck, next, left, userFits, passFits,
    strcmp_word usernameSize userShort ubufferSize,
    strcmp_word passwdSize passShort pbufferSize]

/-- Short words, and more than one of them, keep the loop inside. -/
theorem not_stuck_of_short
    (several : 1 < (words isspace fp).length)
    (short : ∀ word ∈ words isspace fp, word.length < 10) :
    ¬ Stuck fp username passwd ubuffer pbuffer := by
  rintro (⟨word, member, long⟩ | ⟨empty, _⟩ | ⟨few, _⟩)
  · exact absurd (short word member) (Nat.not_lt.mpr long)
  · simp [empty] at several
  · exact absurd several (Nat.not_lt.mpr few)

/-- The loop gets stuck, or replies to each pair and at the end. -/
theorem loginLoop_spec
    (usernameSize : username.length = 10)
    (passwdSize : passwd.length = 10)
    (rounds : Nat) (enough : fp.length < rounds)
    (ubufferSize : ubuffer.length = 10)
    (pbufferSize : pbuffer.length = 10) :
    (Stuck fp username passwd ubuffer pbuffer →
        loginLoop username passwd rounds ubuffer pbuffer fp = none) ∧
      (¬ Stuck fp username passwd ubuffer pbuffer →
        loginLoop username passwd rounds ubuffer pbuffer fp =
          some
            ((twos (words isspace fp)).flatMap (reply username passwd) ++
              [.usernameNotFound])) := by
  induction rounds generalizing ubuffer pbuffer fp with
  | zero => exact absurd enough (Nat.not_lt_zero _)
  | succ rounds induction =>
      have overlong : ∀ user later, words isspace fp = user :: later →
          (10 ≤ user.length ∨ ∃ pass ∈ later.head?, 10 ≤ pass.length) →
            loginLoop username passwd (rounds + 1) ubuffer pbuffer fp =
                none ∧
              Stuck fp username passwd ubuffer pbuffer := by
        intro user later next long
        refine
          ⟨loginLoop_long rounds next ubufferSize pbufferSize long,
            Or.inl ?_⟩
        rw [next]
        rcases long with here | ⟨pass, head, there⟩
        · exact ⟨user, List.mem_cons_self, here⟩
        · exact
            ⟨pass, List.mem_cons_of_mem _ (List.mem_of_mem_head? head),
              there⟩
      match next : words isspace fp with
      | [] =>
          rw [loginLoop_ended rounds next, stuck_ended next]
          exact ⟨fun stuck => if_pos stuck, fun free => if_neg free⟩
      | [user] =>
          by_cases short : user.length < 10
          · rw [loginLoop_single rounds next short usernameSize
              ubufferSize, stuck_single next short]
            exact ⟨fun stuck => if_pos stuck, fun free => if_neg free⟩
          · rcases overlong user [] next (Or.inl (Nat.not_lt.mp short))
              with ⟨fails, stuck⟩
            exact ⟨fun _ => fails, fun free => absurd stuck free⟩
      | user :: pass :: later =>
          by_cases short : user.length < 10 ∧ pass.length < 10
          · rcases short with ⟨userShort, passShort⟩
            rcases loginLoop_pair rounds next userShort passShort
                usernameSize passwdSize ubufferSize pbufferSize with
              ⟨rest, left, shorter, round⟩
            have goes_on := @induction
              (overwrite (user ++ [0]) ubuffer)
              (overwrite (pass ++ [0]) pbuffer) rest (by omega)
              (stored_word userShort ubufferSize).1
              (stored_word passShort pbufferSize).1
            rw [stuck_pair next left userShort passShort usernameSize
              passwdSize ubufferSize pbufferSize, round]
            constructor
            · intro stuck
              rw [goes_on.1 stuck]
              rfl
            · intro free
              rw [goes_on.2 free, left]
              simp [twos]
          · have long : 10 ≤ user.length ∨
                ∃ other ∈ (pass :: later).head?, 10 ≤ other.length := by
              simp only [List.head?_cons, Option.mem_def,
                Option.some.injEq, exists_eq_left']
              omega
            rcases overlong user _ next long with ⟨fails, stuck⟩
            exact ⟨fun _ => fails, fun free => absurd stuck free⟩

end Loop

/-! ## What the replies say and what the command does -/

theorem mem_of_mem_twos {α : Type*} {list : List α} {first second : α}
    (member : (first, second) ∈ twos list) :
    first ∈ list ∧ second ∈ list := by
  induction list using twos.induct with
  | case1 head next rest induction =>
      rw [twos, List.mem_cons, Prod.mk.injEq] at member
      rcases member with ⟨rfl, rfl⟩ | later
      · simp
      · have inside := induction later
        simp [inside.1, inside.2]
  | case2 list short =>
      rw [twos] at member
      · cases member
      · exact short

/-- The words of a text are read as they stand there. -/
theorem cString_of_mem_words
    {login : List Byte} (text : NulFree login) {word : List Byte}
    (member : word ∈ words isspace login) :
    cString word = word := by
  have part := (solid_of_mem_words isspace member).2.2
  exact cString_of_nulFree (text.of_sublist part.sublist)

/-- A login is a success exactly if the pair is in the file. -/
theorem login_reports
    {login username passwd : List Byte} (text : NulFree login) :
    .loginSucess ∈
        (twos (words isspace login)).flatMap (reply username passwd) ++
          [.usernameNotFound] ↔
      Listed login username passwd := by
  simp only [List.mem_append, List.mem_flatMap, List.mem_singleton,
    reduceCtorEq, or_false, Listed]
  constructor
  · rintro ⟨⟨user, pass⟩, member, sucess⟩
    rcases mem_of_mem_twos member with ⟨userMember, passMember⟩
    rw [reply] at sucess
    split_ifs at sucess with known right
    · rw [known, right, cString_of_mem_words text userMember,
        cString_of_mem_words text passMember]
      exact member
    · simp at sucess
    · cases sucess
  · intro listed
    rcases mem_of_mem_twos listed with ⟨userMember, passMember⟩
    refine ⟨_, listed, ?_⟩
    simp [reply, cString_of_mem_words text userMember,
      cString_of_mem_words text passMember]

/-- The command is the string "1", or none has come. -/
def CommandOne (memory : Memory) (datagrams : List (List Byte)) : Prop :=
  ∀ datagram ∈ datagrams.head?,
    recvfrom 1 datagram [memory.command] ++ [memory.behind] = [49, 0]

/-- The test of the command. -/
theorem strcmp_command (command behind : Byte) :
    strcmp [command, behind] [49, 0] =
      some (decide ([command, behind] = [49, 0])) := by
  by_cases one : command = 49
  · by_cases zero : behind = 0 <;> simp [strcmp, one, zero]
  · simp [strcmp, one]

/-- The byte of the command. -/
theorem exists_command (datagram : List Byte) (old : Byte) :
    ∃ command, recvfrom 1 datagram [old] = [command] := by
  cases datagram with
  | nil => exact ⟨old, rfl⟩
  | cons first rest => exact ⟨first, rfl⟩

/--
The login goes well: the server stays inside its buffers, and it enters
`rfile` only if the pair is in the login file.
-/
def EntersListed (memory : Memory) (login user pass : List Byte)
    (datagrams : List (List Byte)) : Prop :=
  ∃ session, serve memory login user pass datagrams = some session ∧
    (session.entered = true →
      Listed login (recvfrom 10 user memory.username)
        (recvfrom 10 pass memory.passwd))

/--
Which sessions enter `rfile` only with a pair of the login file: those that do
not get stuck, with such a pair or with the command "1".  The outcome of the
login plays no role.
-/
theorem entered_listed_iff
    (memory : Memory) (sized : memory.Sized)
    (login user pass : List Byte) (datagrams : List (List Byte)) :
    EntersListed memory login user pass datagrams ↔
      ¬ Stuck login (recvfrom 10 user memory.username)
          (recvfrom 10 pass memory.passwd) memory.ubuffer
          memory.pbuffer ∧
        (Listed login (recvfrom 10 user memory.username)
            (recvfrom 10 pass memory.passwd) ∨
          CommandOne memory datagrams) := by
  have usernameSize :
      (recvfrom 10 user memory.username).length = 10 :=
    NameService.recvfrom_length sized.username
  have passwdSize : (recvfrom 10 pass memory.passwd).length = 10 :=
    NameService.recvfrom_length sized.passwd
  have loop :=
    loginLoop_spec usernameSize passwdSize (login.length + 1)
      (Nat.lt_succ_self _) sized.ubuffer sized.pbuffer
  by_cases stuck : Stuck login (recvfrom 10 user memory.username)
      (recvfrom 10 pass memory.passwd) memory.ubuffer memory.pbuffer
  · simp [EntersListed, serve, loop.1 stuck, stuck]
  · cases datagrams with
    | nil =>
        simp [EntersListed, serve, loop.2 stuck, CommandOne, stuck]
    | cons datagram rest =>
        rcases exists_command datagram memory.command with
          ⟨command, received⟩
        by_cases one : [command, memory.behind] = [49, 0]
        · simp [EntersListed, serve, loop.2 stuck, CommandOne, received,
            strcmp_command, one, stuck]
        · simp [EntersListed, serve, loop.2 stuck, CommandOne, received,
            strcmp_command, one, stuck]

/-- Zeroed memory. -/
def zeroMemory : Memory where
  username := List.replicate 10 0
  passwd := List.replicate 10 0
  ubuffer := List.replicate 10 0
  pbuffer := List.replicate 10 0
  command := 0
  behind := 0

theorem zeroMemory_sized : zeroMemory.Sized :=
  ⟨rfl, rfl, rfl, rfl⟩

/-- With "a b" in `login`: a logs in with b and sends the command "2". -/
theorem entered_listed_ab :
    EntersListed zeroMemory [97, 32, 98, 10] [97, 0] [98, 0] [[50]] := by
  apply (entered_listed_iff zeroMemory zeroMemory_sized [97, 32, 98, 10]
    [97, 0] [98, 0] [[50]]).mpr
  exact ⟨not_stuck_of_short (by decide) (by decide), Or.inl (by decide)⟩

/-- User x is not in the file, and the command "2" enters `rfile`. -/
theorem unlisted_user_enters :
    ¬ ∀ memory : Memory, memory.Sized →
        ∀ (login user pass : List Byte) (datagrams : List (List Byte))
          (session : Session),
          serve memory login user pass datagrams = some session →
          session.entered = true →
            Listed login (recvfrom 10 user memory.username)
              (recvfrom 10 pass memory.passwd) := by
  intro claim
  have served : serve zeroMemory [97, 32, 98, 10] [120, 0] [121, 0] [[50]] =
      some ⟨[.usernameNotFound], true⟩ := by
    decide
  exact
    absurd (claim zeroMemory zeroMemory_sized _ _ _ _ _ served rfl)
      (by decide)

end NetworkingLab.FileService
