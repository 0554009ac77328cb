import Crossbow.BasicString.CharSearch
import Crossbow.BasicString.Positions
import Crossbow.Kernel.Numeral

/-! `Endpoint`: the address of a socket, from the text of a host and a port, or from
one text for both. That text is cut at its first ':', which is inside the host if
the host is an IPv6 address. -/
namespace Crossbow.Infinio.Endpoint
open Kernel BasicString

inductive Family where
  | inet
  | inet6
  | other
  deriving DecidableEq, Repr

/-- `mAddress` without the fields that stay zero, or `unset` if no constructor has
written it. -/
inductive Address where
  | unset
  | ipv4 (sinAddr : List UInt8) (sinPort : Nat)
  | ipv6 (sin6Addr : List UInt8) (sin6Port : Nat)
  deriving DecidableEq, Repr

def htons (value : Nat) : Nat := decodeLE (natLE 2 value).reverse

def ntohs (value : Nat) : Nat := decodeLE (natLE 2 value).reverse

inductive Fault where
  | string (exn : Exn)
  | conversion (error : ConversionError)
  deriving DecidableEq, Repr

def stoul := stoUnsigned 64 (scanDigits 10)

section Constructors

variable (inetPton : Family → List UInt8 → Option (List UInt8)) (isspace : UInt8 → Bool)

def ofPort (family : Family) (port : Nat) : Address :=
  match family with
  | .inet => .ipv4 (List.replicate 4 0) (htons port)
  | .inet6 => .ipv6 (List.replicate 16 0) (htons port)
  | .other => .unset

/-- A text that `inet_pton` does not accept leaves the zeros of `memset`. -/
def setAddress (family : Family) (host : List UInt8) (port : Nat) : Address :=
  match family with
  | .inet => .ipv4 ((inetPton .inet (cText host)).getD (List.replicate 4 0)) (htons port)
  | .inet6 => .ipv6 ((inetPton .inet6 (cText host)).getD (List.replicate 16 0)) (htons port)
  | .other => .unset

/-- `Endpoint(int family, const crossbow::string& host)`, on the text of the string; the
members of a string that holds it return the same, see `host_members`. `pos + 1` wraps if
there is no ':', and the port is cut to 16 bits. -/
def ofText (family : Family) (host : List UInt8) : Option (Except Fault Address) :=
  if host = [] then some (.ok .unset)
  else do
    let pos ← findChar (fun index => host[index]?) host.length 58 0
    return do
      let hostPart ← (substringOf host 0 pos).mapError .string
      let portText ← (substringOf host (wrap (pos + 1)) npos).mapError .string
      let portPart ← (stoul isspace (cText portText)).mapError .conversion
      return setAddress inetPton family hostPart (portPart % 2 ^ 16).toNat

end Constructors

def printAddress (inetNtop : Family → List UInt8 → List UInt8) : Address → List UInt8
  | .unset => []
  | .ipv4 sinAddr sinPort => inetNtop .inet sinAddr ++ 58 :: decimalDigits (ntohs sinPort)
  | .ipv6 sin6Addr sin6Port => inetNtop .inet6 sin6Addr ++ 58 :: decimalDigits (ntohs sin6Port)

/-! ### The texts of addresses -/

def addressChar (char : UInt8) : Bool := char == 58 || char == 46 || isDigit 16 char

/-- The notations that `inet_pton` is documented to accept: four decimal numbers with
'.' between them, and hexadecimal groups with ':' between them. -/
structure Specified (inetPton : Family → List UInt8 → Option (List UInt8)) : Prop where
  inet : ∀ {text bytes}, inetPton .inet text = some bytes →
    text.length < 16 ∧ ∀ char ∈ text, char = 46 ∨ isDigit 10 char = true
  inet6 : ∀ {text bytes}, inetPton .inet6 text = some bytes →
    text.length < 46 ∧ 58 ∈ text ∧ ∀ char ∈ text, addressChar char = true

def leadingDigits (host : List UInt8) : List UInt8 :=
  ((host.dropWhile (· != 58)).drop 1).takeWhile (isDigit 10)

theorem addressChar_decimal {char : UInt8} (hdigit : isDigit 10 char = true) :
    addressChar char = true := by
  rw [addressChar, isDigit_mono (by decide) hdigit, Bool.or_true]

theorem addressChar_ne {char : UInt8} (haddress : addressChar char = true) :
    char ≠ 0 ∧ char ≠ 43 ∧ char ≠ 45 := by
  refine ⟨?_, ?_, ?_⟩ <;> rintro rfl <;> revert haddress <;> decide

theorem isDigit_ne_colon {char : UInt8} (hdigit : isDigit 10 char = true) : char ≠ 58 := by
  rintro rfl
  revert hdigit
  decide

theorem cText_eq {text : List UInt8} (htext : ∀ char ∈ text, addressChar char = true) :
    cText text = text :=
  List.takeWhile_eq_self_iff.mpr fun char hchar => by
    simpa using (addressChar_ne (htext char hchar)).1

theorem addressChar_port (port : Nat) : ∀ char ∈ 58 :: decimalDigits port,
    addressChar char = true :=
  List.forall_mem_cons.mpr
    ⟨by decide, fun _ hchar => addressChar_decimal (decimalDigits_digits hchar)⟩

theorem Specified.chars {inetPton : Family → List UInt8 → Option (List UInt8)}
    (hspecified : Specified inetPton) {family : Family}
    (hfamily : family = .inet ∨ family = .inet6) {text bytes : List UInt8}
    (haccepted : inetPton family text = some bytes) :
    text.length < 46 ∧ ∀ char ∈ text, addressChar char = true := by
  rcases hfamily with rfl | rfl
  · obtain ⟨hlength, hchars⟩ := hspecified.inet haccepted
    refine ⟨by omega, fun char hchar => ?_⟩
    rcases hchars char hchar with rfl | hdigit
    · decide
    · exact addressChar_decimal hdigit
  · obtain ⟨hlength, _, hchars⟩ := hspecified.inet6 haccepted
    exact ⟨hlength, hchars⟩

theorem leadingDigits_append {before behind : List UInt8} (hbefore : 58 ∉ before) :
    leadingDigits (before ++ 58 :: behind) = behind.takeWhile (isDigit 10) := by
  have hskip : ∀ char ∈ before, (char != 58) = true := by
    intro char hchar
    simpa using ne_of_mem_of_not_mem hchar hbefore
  rw [leadingDigits, List.dropWhile_append_of_pos hskip, List.dropWhile_cons_of_neg (by simp),
    List.drop_one, List.tail_cons]

/-! ### The constructors -/

theorem ntohs_htons {port : Nat} (hport : port < 2 ^ 16) : ntohs (htons port) = port := by
  have hswap : ∀ value, decodeLE (natLE 2 value).reverse =
      value / 256 % 256 + 256 * (value % 256) := by
    intro value
    simp [natLE, decodeLE]
  have hhigh : port / 256 % 256 = port / 256 := Nat.mod_eq_of_lt (by omega)
  rw [ntohs, htons, hswap, hswap, hhigh, Nat.add_mul_div_left _ _ (by decide),
    Nat.add_mul_mod_self_left, Nat.div_eq_of_lt (by omega), Nat.zero_add, Nat.mod_mod, hhigh]
  exact Nat.mod_add_div port 256

theorem htons_inj {port other : Nat} (hport : port < 2 ^ 16) (hother : other < 2 ^ 16) :
    htons port = htons other ↔ port = other := by
  refine ⟨fun hsame => ?_, congrArg htons⟩
  rw [← ntohs_htons hport, hsame, ntohs_htons hother]

theorem findChar_first {before behind : List UInt8} (hbefore : 58 ∉ before)
    (hsmall : (before ++ 58 :: behind).length < ptrdiffMax) :
    findChar (fun index => (before ++ 58 :: behind)[index]?) (before ++ 58 :: behind).length 58 0 =
      some before.length := by
  obtain ⟨value, hvalue, hanswers⟩ := findFirst_answers (fun _ _ => rfl) hsmall (· = 58)
    (fun other => congrArg some (beq_eq_decide other 58)) 0
  have hleast : IsLeast {index | 0 ≤ index ∧ ∃ ch ∈ (before ++ 58 :: behind)[index]?, ch = 58}
      before.length := by
    refine ⟨⟨Nat.zero_le _, 58, by simp, rfl⟩, ?_⟩
    rintro index ⟨_, _, hfound, rfl⟩
    by_contra hinside
    rw [List.getElem?_append_left (by omega)] at hfound
    exact hbefore (List.mem_of_getElem? hfound)
  rw [findChar_eq, findFirstOfChar, hvalue]
  rcases hanswers with hfirst | ⟨hnone, _⟩
  · rw [hfirst.unique hleast]
  · exact absurd hleast.1 (by rw [hnone]; exact Set.notMem_empty _)

theorem host_members {mem : Mem} {host : List UInt8} (hvalid : Valid mem.arr mem.heap host)
    (hsupplied : Supplied mem.supply mem.heap) :
    (∀ ch pos, findChar (peek mem.arr mem.heap) (getSize mem.arr) ch pos =
      findChar (fun index => host[index]?) host.length ch pos) ∧
    ∀ raw pos count, SubstrDoes mem raw host pos count := by
  refine ⟨fun ch pos => ?_, substr_does hvalid hsupplied⟩
  unfold findChar traitsFind
  rw [hvalid.size]
  split
  · rfl
  · rw [scanUp_congr fun index _ hinside => by rw [hvalid.peek_text (by omega)]]

section Endpoints

variable {inetPton : Family → List UInt8 → Option (List UInt8)} {isspace : UInt8 → Bool}
  {host : List UInt8} {port : Nat}

theorem setAddress_rejected {family : Family} (port : Nat)
    (hrejected : inetPton family (cText host) = none) :
    setAddress inetPton family host port = ofPort family port := by
  cases family with
  | inet | inet6 => rw [setAddress, hrejected]; rfl
  | other => rfl

theorem printAddress_setAddress (inetNtop : Family → List UInt8 → List UInt8) {family : Family}
    (hfamily : family = .inet ∨ family = .inet6) {bytes : List UInt8}
    (hbytes : inetPton family (cText host) = some bytes) (hport : port < 2 ^ 16) :
    printAddress inetNtop (setAddress inetPton family host port) =
      inetNtop family bytes ++ 58 :: decimalDigits port := by
  rcases hfamily with rfl | rfl <;>
    rw [setAddress, hbytes, Option.getD_some, printAddress, ntohs_htons hport]

theorem ofText_append {before behind : List UInt8} (hbefore : 58 ∉ before)
    (hsmall : (before ++ 58 :: behind).length < ptrdiffMax) (family : Family) :
    ofText inetPton isspace family (before ++ 58 :: behind) =
      some (((stoul isspace (cText behind)).mapError .conversion).map fun portPart =>
        setAddress inetPton family before (portPart % 2 ^ 16).toNat) := by
  have hword : ptrdiffMax < npos := by decide
  have hlength : (before ++ 58 :: behind).length = before.length + 1 + behind.length := by
    rw [List.length_append, List.length_cons]
    omega
  have hhost : substringOf (before ++ 58 :: behind) 0 before.length = .ok before := by
    rw [substringOf, if_neg (Nat.not_lt_zero _), List.drop_zero, List.take_left]
  have hport : substringOf (before ++ 58 :: behind) (wrap (before.length + 1)) npos =
      .ok behind := by
    have hsplit : before ++ 58 :: behind = (before ++ [58]) ++ behind := by simp
    rw [wrap_of_lt (by simp only [npos] at hword; omega), substringOf, if_neg (by omega), hsplit,
      List.drop_left' (by simp), List.take_of_length_le (by omega)]
  rw [ofText, if_neg (by simp), findChar_first hbefore hsmall]
  simp only [bind, Option.bind, hhost, hport, Except.mapError, Except.bind]
  cases stoul isspace (cText behind) <;> rfl

variable (hblank : ∀ char, addressChar char = true → isspace char = false)
include hblank

theorem stoul_digits {text : List UInt8} (htext : ∀ char ∈ text, addressChar char = true) :
    stoul isspace (cText text) =
      if text.takeWhile (isDigit 10) = [] then .error .invalidArgument
      else if numeralValue 10 (text.takeWhile (isDigit 10)) < 2 ^ 64 then
        .ok (numeralValue 10 (text.takeWhile (isDigit 10)))
      else .error .outOfRange := by
  rw [cText_eq htext]
  refine stoUnsigned_digits (fun char hchar => ?_) 64 10
  have haddress := htext char (List.mem_of_mem_head? hchar)
  exact ⟨hblank char haddress, (addressChar_ne haddress).2⟩

theorem stoul_decimalDigits (hport : port < 2 ^ 16) :
    stoul isspace (cText (decimalDigits port)) = .ok port := by
  have hchars := (List.forall_mem_cons.mp (addressChar_port port)).2
  rw [stoul_digits hblank hchars,
    List.takeWhile_eq_self_iff.mpr fun _ hchar => decimalDigits_digits hchar,
    numeralValue_decimalDigits, if_neg (decimalDigits_ne_nil port), if_pos (by omega)]

theorem ofText_inet (hspecified : Specified inetPton) {bytes : List UInt8}
    (haccepted : inetPton .inet host = some bytes) (hport : port < 2 ^ 16)
    (hsmall : (host ++ 58 :: decimalDigits port).length < ptrdiffMax) :
    ofText inetPton isspace .inet (host ++ 58 :: decimalDigits port) =
      some (.ok (setAddress inetPton .inet host port)) := by
  have hcolon : 58 ∉ host := by
    intro hmem
    rcases (hspecified.inet haccepted).2 58 hmem with hdot | hdigit
    · revert hdot; decide
    · exact isDigit_ne_colon hdigit rfl
  rw [ofText_append hcolon hsmall, stoul_decimalDigits hblank hport]
  have hcut : ((port : Int) % 2 ^ 16).toNat = port := by omega
  simp only [Except.mapError, Except.map, hcut]

/-- The text of an IPv6 address and a port never gives the address: what stands
before its first ':' is none. -/
theorem ofText_inet6 (hspecified : Specified inetPton) {bytes : List UInt8}
    (haccepted : inetPton .inet6 host = some bytes)
    (hsmall : (host ++ 58 :: decimalDigits port).length < ptrdiffMax) :
    ofText inetPton isspace .inet6 (host ++ 58 :: decimalDigits port) = some (
      if leadingDigits host = [] then .error (.conversion .invalidArgument)
      else if numeralValue 10 (leadingDigits host) < 2 ^ 64 then
        .ok (ofPort .inet6 (numeralValue 10 (leadingDigits host) % 2 ^ 16))
      else .error (.conversion .outOfRange)) := by
  obtain ⟨_, hcolon, hchars⟩ := hspecified.inet6 haccepted
  obtain ⟨before, behind, rfl, hbefore⟩ := List.eq_append_cons_of_mem hcolon
  have hfront : ∀ char ∈ before, addressChar char = true := fun char hchar =>
    hchars char (List.mem_append_left _ hchar)
  have hback : ∀ char ∈ behind ++ 58 :: decimalDigits port, addressChar char = true := by
    intro char hchar
    rcases List.mem_append.mp hchar with hinside | hport
    · exact hchars char (List.mem_append_right _ (List.mem_cons_of_mem _ hinside))
    · exact addressChar_port port char hport
  have hdigits : (behind ++ 58 :: decimalDigits port).takeWhile (isDigit 10) =
      leadingDigits (before ++ 58 :: behind) := by
    rw [leadingDigits_append hbefore, List.takeWhile_append,
      List.takeWhile_cons_of_neg (by decide), List.append_nil]
    split
    · rename_i hwhole
      exact ((List.takeWhile_prefix _).eq_of_length hwhole).symm
    · rfl
  have hrejected : inetPton .inet6 (cText before) = none := by
    rw [cText_eq hfront, Option.eq_none_iff_forall_ne_some]
    exact fun other hother => hbefore (hspecified.inet6 hother).2.1
  rw [List.append_assoc, List.cons_append] at hsmall ⊢
  rw [ofText_append hbefore hsmall, stoul_digits hblank hback, hdigits]
  split
  · rfl
  · split
    · simp only [Except.mapError, Except.map, setAddress_rejected _ hrejected]
      congr 3
    · rfl

/-- One text for host and port gives the same endpoint as the two of them, for an IPv4
address always, and for an IPv6 address if and only if it is all zeros and a number
that is the port modulo `2 ^ 16` follows its first ':'. -/
theorem endpoint_of_text_iff (hspecified : Specified inetPton) {family : Family}
    (hfamily : family = .inet ∨ family = .inet6) {host bytes : List UInt8}
    (haccepted : inetPton family host = some bytes) {port : Nat} (hport : port < 2 ^ 16) :
    (∀ inetNtop : Family → List UInt8 → List UInt8, inetNtop family bytes = host →
      printAddress inetNtop (setAddress inetPton family host port) =
        host ++ 58 :: decimalDigits port) ∧
    (ofText inetPton isspace family (host ++ 58 :: decimalDigits port) =
        some (.ok (setAddress inetPton family host port)) ↔
      family = .inet ∨ (bytes = List.replicate 16 0 ∧ leadingDigits host ≠ [] ∧
        numeralValue 10 (leadingDigits host) < 2 ^ 64 ∧
        numeralValue 10 (leadingDigits host) % 2 ^ 16 = port)) := by
  obtain ⟨hlength, hchars⟩ := hspecified.chars hfamily haccepted
  have hsmall : (host ++ 58 :: decimalDigits port).length < ptrdiffMax := by
    have hdigits := length_decimalDigits_le port
    have hmax : 2 ^ 17 < ptrdiffMax := by decide
    rw [List.length_append, List.length_cons]
    omega
  have hbytes : inetPton family (cText host) = some bytes := by rwa [cText_eq hchars]
  refine ⟨fun inetNtop hntop => ?_, ?_⟩
  · rw [printAddress_setAddress inetNtop hfamily hbytes hport, hntop]
  rcases hfamily with rfl | rfl
  · exact iff_of_true (ofText_inet hblank hspecified haccepted hport hsmall) (.inl rfl)
  rw [ofText_inet6 hblank hspecified haccepted hsmall, setAddress, hbytes, Option.getD_some]
  have hcut : numeralValue 10 (leadingDigits host) % 2 ^ 16 < 2 ^ 16 := Nat.mod_lt _ (by decide)
  by_cases hnone : leadingDigits host = []
  · rw [if_pos hnone]
    exact iff_of_false nofun (by rintro (hinet | ⟨_, hsome, _⟩) <;> contradiction)
  rw [if_neg hnone]
  by_cases hfits : numeralValue 10 (leadingDigits host) < 2 ^ 64
  · rw [if_pos hfits, ofPort, Option.some.injEq, Except.ok.injEq, Address.ipv6.injEq,
      htons_inj hcut hport]
    constructor
    · exact fun hsame => .inr ⟨hsame.1.symm, hnone, hfits, hsame.2⟩
    · rintro (hinet | ⟨hzero, _, _, hvalue⟩)
      · contradiction
      · exact ⟨hzero.symm, hvalue⟩
  · rw [if_neg hfits]
    exact iff_of_false nofun (by rintro (hinet | ⟨_, _, hword, _⟩) <;> contradiction)

end Endpoints

def samplePton : Family → List UInt8 → Option (List UInt8)
  | .inet, text => if text = [49, 48, 46, 48, 46, 48, 46, 49] then some [10, 0, 0, 1] else none
  | .inet6, text => if text = [58, 58, 49] then some (List.replicate 15 0 ++ [1]) else none
  | .other, _ => none

theorem samplePton_specified : Specified samplePton where
  inet := by
    intro text bytes haccepted
    obtain ⟨rfl, _⟩ := Option.ite_none_right_eq_some.mp haccepted
    decide +kernel
  inet6 := by
    intro text bytes haccepted
    obtain ⟨rfl, _⟩ := Option.ite_none_right_eq_some.mp haccepted
    decide +kernel

theorem cLocale_addressChar :
    ∀ char, addressChar char = true → cLocale char = false :=
  forall_byte (by decide +kernel)

/-- The endpoint of "10.0.0.1:80". -/
theorem endpoint_of_text_ipv4 :
    samplePton .inet [49, 48, 46, 48, 46, 48, 46, 49] = some [10, 0, 0, 1] ∧
      ofText samplePton cLocale .inet
          ([49, 48, 46, 48, 46, 48, 46, 49] ++ 58 :: decimalDigits 80) =
        some (.ok (setAddress samplePton .inet [49, 48, 46, 48, 46, 48, 46, 49] 80)) :=
  ⟨by decide, (endpoint_of_text_iff cLocale_addressChar samplePton_specified (.inl rfl)
    (show samplePton .inet [49, 48, 46, 48, 46, 48, 46, 49] = some [10, 0, 0, 1] by decide)
    (show 80 < 2 ^ 16 by decide)).2.mpr (.inl rfl)⟩

/-- The text "::1:80" makes the constructor throw, the address ::1 and the port 80
do not. -/
theorem ipv6_text_throws :
    samplePton .inet6 [58, 58, 49] = some (List.replicate 15 0 ++ [1]) ∧
      decimalDigits 80 = [56, 48] ∧
      ofText samplePton cLocale .inet6 [58, 58, 49, 58, 56, 48] =
        some (.error (.conversion .invalidArgument)) ∧
      setAddress samplePton .inet6 [58, 58, 49] 80 =
        .ipv6 (List.replicate 15 0 ++ [1]) (htons 80) := by
  refine ⟨by decide, by decide +kernel, by decide +kernel, by decide⟩

end Crossbow.Infinio.Endpoint
