import CommonCode.Lib.CArray
import CommonCode.Lib.Numerals

/-!
# Connecting to a host

`OpenConnectByHost` gets a text such as `192.168.1.21:21`, cuts a copy of it at
the colon and connects to the address and the port.  The copy in `lhost` has no
terminator, so the number of the port runs on into the bytes that the array
happened to hold.

Addresses and ports in network byte order are represented by their values, and
`cli->ip` by the string in it.
-/

namespace CommonCode.Ftps

open CommonCode.Lib
open CommonCode.Lib.Bits
open CommonCode.Lib.CString
open CommonCode.Lib.CScan
open CommonCode.Lib.Numerals

/-! ## Addresses -/

/-- The value of a digit in any base up to 16. -/
def digitValue (byte : Byte) : Nat :=
  if isDigit byte then byte.toNat - 48
  else if 97 ≤ byte.toNat ∧ byte.toNat ≤ 102 then byte.toNat - 87
  else if 65 ≤ byte.toNat ∧ byte.toNat ≤ 70 then byte.toNat - 55
  else 16

/-- The number in a base at the start of a text, and the text behind it. -/
def numberIn (base : Nat) (text : List Byte) : Nat × List Byte :=
  ((text.takeWhile fun byte => digitValue byte < base).foldl
      (fun value byte => base * value + digitValue byte) 0,
    text.dropWhile fun byte => digitValue byte < base)

/-- `strtoul` with base 0 of a text that has to start with a digit. -/
def scanUnsigned : List Byte → Option (Nat × List Byte)
  | [] => none
  | first :: rest =>
      if isDigit first = false then none
      else if first ≠ char '0' then some (numberIn 10 (first :: rest))
      else
        match rest with
        | mark :: digit :: more =>
            if (mark = char 'x' ∨ mark = char 'X') ∧ digitValue digit < 16
            then some (numberIn 16 (digit :: more))
            else some (numberIn 8 (first :: rest))
        | _ => some (numberIn 8 (first :: rest))

/-- At most `count` numbers with points between them. -/
def scanParts : Nat → List Byte → Option (List Nat × List Byte)
  | 0, _ => none
  | count + 1, text => do
      let (value, rest) ← scanUnsigned text
      if rest.head? = some (char '.') then
        let (values, behind) ← scanParts count rest.tail
        return (value :: values, behind)
      else return ([value], rest)

/-- The address of one to four parts; the last part takes what is left. -/
def address (parts : List Nat) : Option (BitVec 32) :=
  let front := parts.dropLast
  let last := parts.getLastD 0
  if (∀ part ∈ front, part ≤ 255) ∧ last < 256 ^ (4 - front.length) then
    some (BitVec.ofNat 32
      (front.foldl (fun value part => 256 * value + part) 0 *
        256 ^ (4 - front.length) + last))
  else none

/-- `inet_aton` -/
def inetAton (text : List Byte) : Option (BitVec 32) := do
  let (parts, behind) ← scanParts 4 text
  if behind.head?.all isSpace then address parts else none

/-- A byte of an address, the first one most significant. -/
def octet (address : BitVec 32) (i : Nat) : Nat :=
  address.toNat / 256 ^ (3 - i) % 256

/-- `inet_ntoa` -/
def inetNtoa (address : BitVec 32) : List Byte :=
  decimal (octet address 0) ++ char '.' :: (decimal (octet address 1) ++
    char '.' :: (decimal (octet address 2) ++
      char '.' :: decimal (octet address 3)))

/-- `htons` of an `int` -/
def htons (value : BitVec 32) : BitVec 16 := value.setWidth 16

/-! ## The function -/

/-- `struct sockaddr_in` -/
structure SockaddrIn where
  sinAddr : BitVec 32
  sinPort : BitVec 16
deriving DecidableEq

/-- The fields of the client that the function sets. -/
structure FtpsClient where
  connfd : Int
  ip : List Byte
deriving DecidableEq

/-- The services and the sockets of the system. -/
structure Network where
  getservbyname : List Byte → Option (BitVec 16)
  gethostbyname : List Byte → Option (BitVec 32)
  socket : Int
  reuseAddr : Int
  linger : Int
  connect : SockaddrIn → Int

/-- The result, the client and the argument of `connect`. -/
structure Outcome where
  returned : Int
  cli : FtpsClient
  connected : Option SockaddrIn
deriving DecidableEq

/-- `strchr` on an array: it has to find the byte or a terminator. -/
def strchrArray : List Byte → Byte → Except Fault (Option Nat)
  | [], _ => .error .outOfBounds
  | byte :: memory, c =>
      if byte = c then .ok (some 0)
      else if byte = 0 then .ok none
      else (strchrArray memory c).map (Option.map (· + 1))

section Function

variable (network : Network)

/-- From the call of `socket` on. -/
def connectSocket (cli : FtpsClient) (sin : SockaddrIn) : Outcome :=
  if network.socket = -1 then ⟨-1, cli, none⟩
  else if network.reuseAddr = -1 then ⟨-1, cli, none⟩
  else if network.linger = -1 then ⟨-1, cli, none⟩
  else if network.connect sin = -1 then ⟨-1, cli, some sin⟩
  else ⟨0, { cli with connfd := network.socket }, some sin⟩

/-- From the call of `inet_aton` on; `snprintf` cuts to 15 bytes. -/
def connectAddress (lhost : List Byte) (cli : FtpsClient)
    (sinPort : BitVec 16) : Except Fault Outcome := do
  let name ← cString lhost
  match inetAton name with
  | some sinAddr =>
      let cli := { cli with ip := name.take 15 }
      return connectSocket network cli ⟨sinAddr, sinPort⟩
  | none =>
      match network.gethostbyname name with
      | none => return ⟨-1, cli, none⟩
      | some sinAddr =>
          let cli := { cli with ip := (inetNtoa sinAddr).take 15 }
          return connectSocket network cli ⟨sinAddr, sinPort⟩

/-- The call; `lhost` holds what was on the stack before. -/
def openConnectByHost (lhost : CArray Byte 24) (cli : FtpsClient)
    (host : List Byte) : Except Fault Outcome := do
  let lhost ← memcpy lhost.toList host
  match ← strchrArray lhost (char ':') with
  | none =>
      match network.getservbyname (ascii "ftp") with
      | none => return ⟨0, cli, none⟩
      | some sPort => connectAddress network lhost cli sPort
  | some colon =>
      let lhost := store lhost colon [0]
      let pnum := lhost.drop (colon + 1)
      match pnum with
      | [] => .error .outOfBounds
      | first :: _ =>
          if isDigit first then
            let port ← atoi pnum
            connectAddress network lhost cli (htons port)
          else
            let name ← cString pnum
            match network.getservbyname name with
            | none => .error .nullPointer
            | some sPort => connectAddress network lhost cli sPort

end Function

/-! ## Addresses in decimal -/

theorem digitValue_lt_ten :
    (fun byte : Byte => decide (digitValue byte < 10)) = isDigit := by
  have same : ∀ byte : Byte, decide (digitValue byte < 10) = isDigit byte := by
    decide
  exact funext same

theorem numberIn_ten {text rest : List Byte} (digits : AllDigits text)
    (stops : Stops rest) :
    numberIn 10 (text ++ rest) = (numeral text, rest) := by
  rw [numberIn, digitValue_lt_ten, takeWhile_digits digits stops,
    dropWhile_digits digits stops, numeral]
  congr 1
  refine List.foldl_ext _ _ _ fun value byte member => ?_
  rw [digitValue, if_pos (digits byte member)]

/-- A part of an address ends at a point or at the end of the text. -/
def PartEnd (rest : List Byte) : Prop :=
  rest = [] ∨ ∃ more, rest = char '.' :: more

theorem PartEnd.stops {rest : List Byte} (ends : PartEnd rest) :
    Stops rest := by
  rcases ends with rfl | ⟨more, rfl⟩
  · intro byte first
    cases first
  · intro byte first
    cases first
    decide

/-- Numbers without superfluous zeros are read in base 10. -/
theorem scanUnsigned_decimal (n : Nat) {rest : List Byte}
    (ends : PartEnd rest) :
    scanUnsigned (decimal n ++ rest) = some (n, rest) := by
  rcases eq_or_ne n 0 with rfl | positive
  · rcases ends with rfl | ⟨more, rfl⟩
    · decide
    · cases more with
      | nil => decide
      | cons digit more => rfl
  · have whole := numberIn_ten (allDigits_decimal n) ends.stops
    rw [numeral_decimal] at whole
    obtain ⟨first, digits, text⟩ :=
      List.exists_cons_of_ne_nil (decimal_ne_nil n)
    have digit := allDigits_decimal n first (by simp [text])
    have nonzero : first ≠ char '0' := by
      have head := head_decimal_ne positive
      rw [text] at head
      simpa using head
    rw [text, List.cons_append] at whole ⊢
    unfold scanUnsigned
    dsimp only
    rw [if_neg (by simp [digit]), if_pos nonzero, whole]

theorem scanParts_last (count n : Nat) :
    scanParts (count + 1) (decimal n) = some ([n], []) := by
  have number := scanUnsigned_decimal n (Or.inl rfl)
  rw [List.append_nil] at number
  rw [scanParts, number]
  rfl

theorem scanParts_point (count n : Nat) {text behind : List Byte}
    {values : List Nat} (parts : scanParts count text = some (values, behind)) :
    scanParts (count + 1) (decimal n ++ char '.' :: text) =
      some (n :: values, behind) := by
  have number := scanUnsigned_decimal n (Or.inr ⟨text, rfl⟩)
  rw [scanParts, number]
  simp only [Option.bind_eq_bind, Option.bind_some, List.head?_cons, if_pos,
    List.tail_cons, parts]
  rfl

theorem octet_lt (address : BitVec 32) (i : Nat) : octet address i < 256 :=
  Nat.mod_lt _ (by decide)

theorem address_octets (word : BitVec 32) :
    address [octet word 0, octet word 1, octet word 2, octet word 3] =
      some word := by
  have small : word.toNat < 2 ^ 32 := word.isLt
  rw [address, if_pos]
  · congr 1
    apply BitVec.eq_of_toNat_eq
    rw [BitVec.toNat_ofNat]
    simp [octet]
    omega
  · have first := octet_lt word 0
    have second := octet_lt word 1
    have third := octet_lt word 2
    have fourth := octet_lt word 3
    simp
    omega

/-- `inet_aton` reads what `inet_ntoa` prints. -/
theorem inetAton_inetNtoa (word : BitVec 32) :
    inetAton (inetNtoa word) = some word := by
  have parts : scanParts 4 (inetNtoa word) =
      some ([octet word 0, octet word 1, octet word 2, octet word 3], []) :=
    scanParts_point 3 _ (scanParts_point 2 _
      (scanParts_point 1 _ (scanParts_last 0 _)))
  rw [inetAton, parts]
  exact address_octets word

theorem mem_inetNtoa {word : BitVec 32} {byte : Byte}
    (member : byte ∈ inetNtoa word) :
    byte = char '.' ∨ isDigit byte = true := by
  simp only [inetNtoa, List.mem_append, List.mem_cons] at member
  rcases member with digit | point | digit | point | digit | point | digit
  · exact Or.inr (allDigits_decimal _ byte digit)
  · exact Or.inl point
  · exact Or.inr (allDigits_decimal _ byte digit)
  · exact Or.inl point
  · exact Or.inr (allDigits_decimal _ byte digit)
  · exact Or.inl point
  · exact Or.inr (allDigits_decimal _ byte digit)

theorem nulFree_inetNtoa (word : BitVec 32) : 0 ∉ inetNtoa word := by
  intro member
  rcases mem_inetNtoa member with point | digit
  · revert point
    decide
  · revert digit
    decide

theorem colon_not_mem_inetNtoa (word : BitVec 32) :
    char ':' ∉ inetNtoa word := by
  intro member
  rcases mem_inetNtoa member with point | digit
  · revert point
    decide
  · revert digit
    decide

theorem length_decimal_octet (word : BitVec 32) (i : Nat) :
    1 ≤ (decimal (octet word i)).length ∧
      (decimal (octet word i)).length ≤ 3 := by
  have all : ∀ part : Fin 256,
      1 ≤ (decimal part).length ∧ (decimal part).length ≤ 3 := by
    decide +kernel
  exact all ⟨octet word i, octet_lt word i⟩

/-- The text of an address has 7 to 15 bytes. -/
theorem length_inetNtoa (word : BitVec 32) :
    7 ≤ (inetNtoa word).length ∧ (inetNtoa word).length ≤ 15 := by
  have first := length_decimal_octet word 0
  have second := length_decimal_octet word 1
  have third := length_decimal_octet word 2
  have fourth := length_decimal_octet word 3
  simp only [inetNtoa, List.length_append, List.length_cons]
  omega

/-! ## What a call does -/

theorem strchrArray_append {front : List Byte} {c : Byte}
    (nulFree : 0 ∉ front) (absent : c ∉ front) (back : List Byte) :
    strchrArray (front ++ c :: back) c = .ok (some front.length) := by
  induction front with
  | nil => rw [List.nil_append, strchrArray, if_pos rfl, List.length_nil]
  | cons byte front induction =>
      rw [List.mem_cons, not_or] at nulFree absent
      rw [List.cons_append, strchrArray, if_neg fun same => absent.1 same.symm,
        if_neg fun same => nulFree.1 same.symm,
        induction nulFree.2 absent.2]
      rfl

/-- With a decimal address no service is asked for the host. -/
theorem connectAddress_inetNtoa (network : Network) (word : BitVec 32)
    (behind : List Byte) (cli : FtpsClient) (sinPort : BitVec 16) :
    connectAddress network (inetNtoa word ++ 0 :: behind) cli sinPort =
      .ok (connectSocket network { cli with ip := inetNtoa word }
        ⟨word, sinPort⟩) := by
  have short := (length_inetNtoa word).2
  rw [connectAddress, cString_append_nul (nulFree_inetNtoa word)]
  change (match inetAton (inetNtoa word) with
    | some sinAddr => _
    | none => _) = _
  rw [inetAton_inetNtoa]
  change Except.ok (connectSocket network
    { cli with ip := (inetNtoa word).take 15 } ⟨word, sinPort⟩) = _
  rw [List.take_of_length_le short]

/-- What the array holds behind a host. -/
def stray (lhost : CArray Byte 24) (host : List Byte) : List Byte :=
  lhost.toList.drop host.length

/-- The port that the function reads runs on into the array. -/
theorem openConnectByHost_eq (network : Network) (lhost : CArray Byte 24)
    (cli : FtpsClient) (word : BitVec 32) {host port : List Byte}
    (text : host = inetNtoa word ++ char ':' :: port)
    (digits : AllDigits port) (nonempty : port ≠ [])
    (short : host.length ≤ 23) :
    openConnectByHost network lhost cli host =
      if (stray lhost host).all isDigit then .error .outOfBounds
      else
        .ok (connectSocket network { cli with ip := inetNtoa word }
          ⟨word, htons (BitVec.ofInt 32 (saturate
            (numeral (port ++ (stray lhost host).takeWhile isDigit))))⟩) := by
  have size : lhost.toList.length = 24 := by simp
  have copied : memcpy lhost.toList host =
      .ok (inetNtoa word ++ char ':' :: (port ++ stray lhost host)) := by
    rw [memcpy_eq_ok (by omega), ← stray, text]
    simp
  have cut : store (inetNtoa word ++ char ':' :: (port ++ stray lhost host))
      (inetNtoa word).length [0] =
        inetNtoa word ++ 0 :: (port ++ stray lhost host) := by
    simp [store]
  have found : strchrArray
      (inetNtoa word ++ char ':' :: (port ++ stray lhost host)) (char ':') =
        .ok (some (inetNtoa word).length) :=
    strchrArray_append (nulFree_inetNtoa word) (colon_not_mem_inetNtoa word) _
  obtain ⟨first, more, start⟩ := List.exists_cons_of_ne_nil nonempty
  have digit : isDigit first = true := digits first (by simp [start])
  have number : (inetNtoa word ++ 0 :: (port ++ stray lhost host)).drop
      ((inetNtoa word).length + 1) = first :: (more ++ stray lhost host) := by
    simp [start]
  have converted := atoi_digits digits nonempty (stray lhost host)
  rw [show port ++ stray lhost host = first :: (more ++ stray lhost host) by
    rw [start]; rfl] at converted
  simp only [openConnectByHost, copied, found, cut, number, converted, digit,
    if_pos, bind, Except.bind]
  by_cases all : (stray lhost host).all isDigit = true
  · rw [if_pos all, if_pos all]
  · rw [if_neg all, if_neg all]
    exact connectAddress_inetNtoa network word _ cli _

/-! ## Hosts with an address and a port -/

/--
The call connects to the address and the port of the host, whatever the system
answers, and leaves the text of the address in `cli->ip`.
-/
def Connects (lhost : CArray Byte 24) (host : List Byte)
    (word : BitVec 32) (port : Nat) : Prop :=
  ∀ network cli,
    openConnectByHost network lhost cli host =
      .ok (connectSocket network { cli with ip := inetNtoa word }
        ⟨word, BitVec.ofNat 16 port⟩)

/-- A number of at most 16 digits becomes a port by its last 16 bits. -/
theorem htons_saturate {text : List Byte} (digits : AllDigits text)
    (short : text.length ≤ 16) :
    htons (BitVec.ofInt 32 (saturate (numeral text))) =
      BitVec.ofNat 16 (numeral text) := by
  have bound := numeral_lt digits
  have power : 10 ^ text.length ≤ 10 ^ 16 :=
    Nat.pow_le_pow_right (by decide) short
  have exact : saturate (numeral text) = numeral text := by
    rw [saturate]
    omega
  rw [exact, htons]
  apply BitVec.eq_of_toNat_eq
  change (BitVec.ofNat 32 (numeral text)).toNat % 2 ^ 16 = _
  rw [BitVec.toNat_ofNat, BitVec.toNat_ofNat]
  omega

/-- A network in which every call succeeds. -/
def reachable : Network where
  getservbyname _ := none
  gethostbyname _ := none
  socket := 3
  reuseAddr := 0
  linger := 0
  connect _ := 0

/--
The call connects to the address and the port of a host exactly if the array
has a byte behind the host that is not a digit, and the digits in front of that
byte do not change the port modulo 65536.
-/
theorem connects_iff (lhost : CArray Byte 24) (word : BitVec 32)
    {host port : List Byte}
    (text : host = inetNtoa word ++ char ':' :: port)
    (digits : AllDigits port) (nonempty : port ≠ [])
    (small : numeral port < 65536) (short : host.length ≤ 23) :
    Connects lhost host word (numeral port) ↔
      (∃ byte ∈ stray lhost host, isDigit byte = false) ∧
        numeral (port ++ (stray lhost host).takeWhile isDigit) % 65536 =
          numeral port := by
  have read : AllDigits (port ++ (stray lhost host).takeWhile isDigit) :=
    allDigits_append_iff.mpr
      ⟨digits, fun byte member => List.mem_takeWhile_imp member⟩
  have room :
      (port ++ (stray lhost host).takeWhile isDigit).length ≤ 16 := by
    have behind : (stray lhost host).length = 24 - host.length := by
      simp [stray]
    have front := (length_inetNtoa word).1
    have size := congrArg List.length text
    have lead :=
      (List.takeWhile_prefix isDigit (l := stray lhost host)).length_le
    simp only [List.length_append, List.length_cons] at size ⊢
    omega
  have call := fun network cli =>
    openConnectByHost_eq network lhost cli word text digits nonempty short
  rw [htons_saturate read room] at call
  have digitsBehind : (stray lhost host).all isDigit = true ↔
      ¬ ∃ byte ∈ stray lhost host, isDigit byte = false := by
    simp
  rw [and_congr_left' (not_iff_not.mpr digitsBehind |>.trans not_not).symm]
  constructor
  · intro connects
    have result := connects reachable ⟨0, []⟩
    rw [call] at result
    by_cases all : (stray lhost host).all isDigit = true
    · rw [if_pos all] at result
      cases result
    · rw [if_neg all, Except.ok.injEq] at result
      have ports := congrArg
        (fun outcome => outcome.connected.map SockaddrIn.sinPort) result
      change some (BitVec.ofNat 16 _) = some (BitVec.ofNat 16 _) at ports
      have values := congrArg BitVec.toNat (Option.some.inj ports)
      rw [BitVec.toNat_ofNat, BitVec.toNat_ofNat, Nat.mod_eq_of_lt small]
        at values
      exact ⟨all, values⟩
  · rintro ⟨ends, same⟩ network cli
    have ports : BitVec.ofNat 16
        (numeral (port ++ (stray lhost host).takeWhile isDigit)) =
          BitVec.ofNat 16 (numeral port) := by
      apply BitVec.eq_of_toNat_eq
      rw [BitVec.toNat_ofNat, BitVec.toNat_ofNat, Nat.mod_eq_of_lt small]
      exact same
    rw [call, if_neg ends, ports]

/-- A semicolon behind the host, and digits behind it. -/
theorem connects_semicolon :
    Connects ((Vector.replicate 24 (char '7')).set 11 (char ';'))
      (ascii "10.0.0.1:21") 0x0a000001#32 (numeral (ascii "21")) :=
  (connects_iff ((Vector.replicate 24 (char '7')).set 11 (char ';'))
    0x0a000001#32 (by decide) (by decide) (by decide) (by decide)
    (by decide)).mpr ⟨⟨char ';', by decide, by decide⟩, by decide⟩

/-- A digit behind the host, and zeros behind it. -/
theorem not_connects_digit :
    ¬ Connects ((Vector.replicate 24 0).set 11 (char '5'))
      (ascii "10.0.0.1:21") 0x0a000001#32 21 := by
  intro connects
  have result := connects reachable ⟨0, []⟩
  revert result
  decide

end CommonCode.Ftps
