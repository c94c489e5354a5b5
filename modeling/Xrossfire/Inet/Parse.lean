import Xrossfire.Library.Groups

/-! The address parsers of `inet.c`. The loops that should collect digits run while
the character is not one: they pass over the separators too, so that no separator
is ever found where it is looked for. -/
namespace Xrossfire.Inet
open Library

/-- The characters of an `xf_string_t`, without the zero at `buf[length]`. -/
abbrev XfString := List UInt16

def buf (s : XfString) (i : Nat) : UInt16 := s.getD i 0

def unit (c : Char) : UInt16 := UInt16.ofNat c.toNat

def aster : XfString := [unit '*']

def asterV4 : XfString := [unit '*',unit 'v',unit '4']

def asterV6 : XfString := [unit '*',unit 'v',unit '6']

/-- `xf_string_equals`: the same length, and the same characters over it. -/
def stringEquals (s other : XfString) : Bool := decide (s = other)

/-- The result `none` stands for `false`, where `*i` is left as it is. -/
def xcharToDigit10 (c : UInt16) : Option Int :=
  if unit '0' ≤ c ∧ c ≤ unit '9' then some (c.toNat - (unit '0').toNat) else none

def xcharToDigit16 (c : UInt16) : Option Int :=
  if unit '0' ≤ c ∧ c ≤ unit '9' then some (c.toNat - (unit '0').toNat)
  else if unit 'A' ≤ c ∧ c ≤ unit 'F' then some (c.toNat - (unit 'A').toNat + 10)
  else if unit 'a' ≤ c ∧ c ≤ unit 'f' then some (c.toNat - (unit 'a').toNat + 10)
  else none

def toInt (value : Int) : Int := value.bmod (2 ^ 32)

/-- The loop of both digit parsers, `value` and `*offset` so far. It goes on while the character is no digit,
so that nothing is ever stored in `digits`: `junk` is what that variable holds. -/
def parseDigit (toDigit : UInt16 → Option Int) (junk : Nat → Int) (s : XfString) (value : Int) (offset : Nat) :
    Int × Nat :=
  if offset < s.length ∧ toDigit (buf s offset) = none then
    parseDigit toDigit junk s (toInt (value * 10 + junk offset)) (offset + 1)
  else (value,offset)
termination_by s.length - offset

def stringParseDigit10 (junk : Nat → Int) (s : XfString) (offset : Nat) : Int × Nat :=
  parseDigit xcharToDigit10 junk s 0 offset

/-- The base of the second parser is ten as well. -/
def stringParseDigit16 (junk : Nat → Int) (s : XfString) (offset : Nat) : Int × Nat :=
  parseDigit xcharToDigit16 junk s 0 offset

/-- The bytes of `struct in_addr`. -/
structure InAddr where
  b1 : UInt8
  b2 : UInt8
  b3 : UInt8
  b4 : UInt8
deriving DecidableEq

def inaddrAny : InAddr := ⟨0,0,0,0⟩

/-- Returns the result and what is in `*in_addr` then. -/
def inetParseIpv4 (junk : Nat → Int) (s : XfString) (inAddr : InAddr) : Bool × InAddr :=
  if stringEquals s aster || stringEquals s asterV4 then (true,inaddrAny)
  else
    let (b1,offset) := stringParseDigit10 junk s 0
    if b1 < 0 ∨ 255 < b1 then (false,inAddr)
    else if buf s offset ≠ unit '.' then (false,inAddr)
    else
      let (b2,offset) := stringParseDigit10 junk s (offset + 1)
      if b2 < 0 ∨ 255 < b2 then (false,inAddr)
      else if buf s offset ≠ unit '.' then (false,inAddr)
      else
        let (b3,offset) := stringParseDigit10 junk s offset
        if b3 < 0 ∨ 255 < b3 then (false,inAddr)
        else if buf s offset ≠ unit '.' then (false,inAddr)
        else
          let (b4,offset) := stringParseDigit10 junk s offset
          if b4 < 0 ∨ 255 < b4 then (false,inAddr)
          else if s.length ≠ offset then (false,inAddr)
          else (true,⟨.ofNat b1.toNat,.ofNat b2.toNat,.ofNat b3.toNat,.ofNat b4.toNat⟩)

/-- The words of `struct in6_addr` as the machine stores them, the low byte first. -/
abbrev In6Addr := Vector UInt16 8

def in6addrAny : In6Addr := Vector.replicate 8 0

/-- The value of a stored word in network byte order. -/
def ntohs (word : UInt16) : UInt16 := word <<< 8 ||| word >>> 8

/-- The first seven words from the `i`-th on; the offset is `none` after `goto FAIL`. -/
def parseWords (junk : Nat → Int) (s : XfString) (i offset : Nat) (inAddr : In6Addr) : Option Nat × In6Addr :=
  if more : i < 7 then
    let (w0,offset) := stringParseDigit16 junk s offset
    if w0 < 0 ∨ 65535 < w0 then (none,inAddr)
    else if buf s offset ≠ unit ':' then (none,inAddr)
    else parseWords junk s (i + 1) offset (inAddr.set i (.ofNat w0.toNat))
  else (some offset,inAddr)
termination_by 7 - i

def inetParseIpv6 (junk : Nat → Int) (s : XfString) (inAddr : In6Addr) : Bool × In6Addr :=
  if stringEquals s asterV6 then (true,in6addrAny)
  else
    match parseWords junk s 0 0 inAddr with
    | (none,inAddr) => (false,inAddr)
    | (some offset,inAddr) =>
      let (w7,_) := stringParseDigit16 junk s offset
      if w7 < 0 ∨ 65535 < w7 then (false,inAddr)
      else (true,inAddr.set 7 (.ofNat w7.toNat))

def XF_IPV4 : Int := 1

def XF_IPV6 : Int := 2

/-- Returns the result, `*ip_type` and both addresses. -/
def inetParse (junk : Nat → Int) (s : XfString) (ipType : Int) (inAddr : InAddr) (in6Addr : In6Addr) :
    Bool × Int × InAddr × In6Addr :=
  match inetParseIpv4 junk s inAddr with
  | (true,inAddr) => (true,XF_IPV4,inAddr,in6Addr)
  | (false,inAddr) =>
    match inetParseIpv6 junk s in6Addr with
    | (true,in6Addr) => (true,XF_IPV6,inAddr,in6Addr)
    | (false,in6Addr) => (false,ipType,inAddr,in6Addr)

/-! ## What the parsers accept -/

theorem parseDigit_stops (toDigit : UInt16 → Option Int) (junk : Nat → Int) (s : XfString) (value : Int)
    (offset : Nat) (inside : offset ≤ s.length) :
    buf s (parseDigit toDigit junk s value offset).2 = 0 ∨
      toDigit (buf s (parseDigit toDigit junk s value offset).2) ≠ none := by
  induction left : s.length - offset generalizing value offset with
  | zero =>
    have atEnd : offset = s.length := by omega
    rw [parseDigit,if_neg (fun more => absurd more.1 (by omega))]
    exact Or.inl (by simp [buf,atEnd])
  | succ left ih =>
    rw [parseDigit]
    split_ifs with more
    · exact ih _ _ (by omega) (by omega)
    · refine Or.inr (fun missing => more ⟨by omega,missing⟩)

/-- After a digit parser there is no separator. -/
theorem parseDigit_not (toDigit : UInt16 → Option Int) (junk : Nat → Int) (s : XfString) (value : Int)
    (offset : Nat) (inside : offset ≤ s.length) (c : UInt16) (real : c ≠ 0) (separator : toDigit c = none) :
    buf s (parseDigit toDigit junk s value offset).2 ≠ c := by
  intro same
  rcases parseDigit_stops toDigit junk s value offset inside with atEnd | found
  · exact real (same.symm.trans atEnd)
  · rw [same] at found
    exact found separator

theorem inetParseIpv4_eq (junk : Nat → Int) (s : XfString) (inAddr : InAddr) : inetParseIpv4 junk s inAddr =
    if s = aster ∨ s = asterV4 then (true,inaddrAny) else (false,inAddr) := by
  have stuck : buf s (stringParseDigit10 junk s 0).2 ≠ unit '.' :=
    parseDigit_not xcharToDigit10 junk s 0 0 (Nat.zero_le _) (unit '.') (by decide) (by decide)
  simp only [inetParseIpv4,stringEquals,Bool.or_eq_true,decide_eq_true_eq]
  by_cases star : s = aster ∨ s = asterV4
  · rw [if_pos star,if_pos star]
  rw [if_neg star,if_neg star]
  by_cases range : (stringParseDigit10 junk s 0).1 < 0 ∨ 255 < (stringParseDigit10 junk s 0).1
  · rw [if_pos range]
  · rw [if_neg range,if_pos stuck]

theorem parseWords_fails (junk : Nat → Int) (s : XfString) (inAddr : In6Addr) :
    parseWords junk s 0 0 inAddr = (none,inAddr) := by
  have stuck : buf s (stringParseDigit16 junk s 0).2 ≠ unit ':' :=
    parseDigit_not xcharToDigit16 junk s 0 0 (Nat.zero_le _) (unit ':') (by decide) (by decide)
  rw [parseWords,dif_pos (by decide)]
  dsimp only
  by_cases range : (stringParseDigit16 junk s 0).1 < 0 ∨ 65535 < (stringParseDigit16 junk s 0).1
  · rw [if_pos range]
  · rw [if_neg range,if_pos stuck]

theorem inetParseIpv6_eq (junk : Nat → Int) (s : XfString) (inAddr : In6Addr) : inetParseIpv6 junk s inAddr =
    if s = asterV6 then (true,in6addrAny) else (false,inAddr) := by
  simp only [inetParseIpv6,stringEquals,decide_eq_true_eq,parseWords_fails]

/-- The three wildcards are all that `xf_inet_parse` accepts; otherwise it writes nothing. -/
theorem inetParse_eq (junk : Nat → Int) (s : XfString) (ipType : Int) (inAddr : InAddr) (in6Addr : In6Addr) :
    inetParse junk s ipType inAddr in6Addr =
      if s = aster ∨ s = asterV4 then (true,XF_IPV4,inaddrAny,in6Addr)
      else if s = asterV6 then (true,XF_IPV6,inAddr,in6addrAny)
      else (false,ipType,inAddr,in6Addr) := by
  simp only [inetParse,inetParseIpv4_eq,inetParseIpv6_eq]
  by_cases star : s = aster ∨ s = asterV4
  · rw [if_pos star,if_pos star]
  rw [if_neg star,if_neg star]
  by_cases star6 : s = asterV6
  · rw [if_pos star6,if_pos star6]
  · rw [if_neg star6,if_neg star6]

/-! ## The grammars of addresses -/

def decimal (c : UInt16) : Option Nat := if 48 ≤ c.toNat ∧ c.toNat ≤ 57 then some (c.toNat - 48) else none

def hexadecimal (c : UInt16) : Option Nat :=
  if 48 ≤ c.toNat ∧ c.toNat ≤ 57 then some (c.toNat - 48)
  else if 65 ≤ c.toNat ∧ c.toNat ≤ 70 then some (c.toNat - 55)
  else if 97 ≤ c.toNat ∧ c.toNat ≤ 102 then some (c.toNat - 87)
  else none

theorem xcharToDigit10_eq (c : UInt16) : xcharToDigit10 c = (decimal c).map (fun d : Nat => (d : Int)) := by
  have zero : (unit '0').toNat = 48 := rfl
  have nine : (unit '9').toNat = 57 := rfl
  simp only [xcharToDigit10,decimal,UInt16.le_iff_toNat_le,zero,nine]
  split_ifs with digit
  · simp only [Option.map_some,Option.some.injEq]
    omega
  · rfl

theorem xcharToDigit16_eq (c : UInt16) : xcharToDigit16 c = (hexadecimal c).map (fun d : Nat => (d : Int)) := by
  have zero : (unit '0').toNat = 48 := rfl
  have nine : (unit '9').toNat = 57 := rfl
  have upper : (unit 'A').toNat = 65 ∧ (unit 'F').toNat = 70 := ⟨rfl,rfl⟩
  have lower : (unit 'a').toNat = 97 ∧ (unit 'f').toNat = 102 := ⟨rfl,rfl⟩
  simp only [xcharToDigit16,hexadecimal,UInt16.le_iff_toNat_le,zero,nine,upper,lower]
  split_ifs with digit high low
  · simp only [Option.map_some,Option.some.injEq]
    omega
  · simp only [Option.map_some,Option.some.injEq]
    omega
  · simp only [Option.map_some,Option.some.injEq]
    omega
  · rfl

def DottedQuad (s : XfString) (values : List Nat) : Prop :=
  values.length = 4 ∧ Groups decimal 10 255 (unit '.') s values

def EightGroups (s : XfString) (values : List Nat) : Prop :=
  values.length = 8 ∧ Groups hexadecimal 16 65535 (unit ':') s values

/-- On `s` the call returns true exactly for the wildcards and the dotted quads, with their address. -/
structure ParsesIpv4 (junk : Nat → Int) (inAddr : InAddr) (s : XfString) : Prop where
  accepts : (inetParseIpv4 junk s inAddr).1 = true ↔ s = aster ∨ s = asterV4 ∨ ∃ values, DottedQuad s values
  any : s = aster ∨ s = asterV4 → (inetParseIpv4 junk s inAddr).2 = inaddrAny
  bytes : ∀ v1 v2 v3 v4, DottedQuad s [v1,v2,v3,v4] →
    (inetParseIpv4 junk s inAddr).2 = ⟨.ofNat v1,.ofNat v2,.ofNat v3,.ofNat v4⟩

structure ParsesIpv6 (junk : Nat → Int) (inAddr : In6Addr) (s : XfString) : Prop where
  accepts : (inetParseIpv6 junk s inAddr).1 = true ↔ s = asterV6 ∨ ∃ values, EightGroups s values
  any : s = asterV6 → (inetParseIpv6 junk s inAddr).2 = in6addrAny
  words : ∀ values : List Nat, EightGroups s values → ∀ (i : Nat) (word : UInt16),
    (inetParseIpv6 junk s inAddr).2[i]? = some word →
    values[i]? = some (ntohs word).toNat

theorem DottedQuad.not_aster {s : XfString} {values : List Nat} (quad : DottedQuad s values) :
    ¬(s = aster ∨ s = asterV4) := by
  intro star
  have member : unit '*' ∈ s := by rcases star with rfl | rfl <;> decide
  have character := quad.2.character _ member
  revert character
  decide

theorem EightGroups.not_aster {s : XfString} {values : List Nat} (groups : EightGroups s values) : s ≠ asterV6 := by
  intro star
  have member : unit '*' ∈ s := by rw [star]; decide
  have character := groups.2.character _ member
  revert character
  decide

theorem DottedQuad.refused {s : XfString} {values : List Nat} (quad : DottedQuad s values) (junk : Nat → Int)
    (inAddr : InAddr) : (inetParseIpv4 junk s inAddr).1 = false ∧ ¬ParsesIpv4 junk inAddr s := by
  have refused : (inetParseIpv4 junk s inAddr).1 = false := by
    rw [inetParseIpv4_eq,if_neg quad.not_aster]
  refine ⟨refused,fun parses => ?_⟩
  have accepted := parses.accepts.mpr (Or.inr (Or.inr ⟨values,quad⟩))
  rw [refused] at accepted
  cases accepted

theorem EightGroups.refused {s : XfString} {values : List Nat} (groups : EightGroups s values) (junk : Nat → Int)
    (inAddr : In6Addr) : (inetParseIpv6 junk s inAddr).1 = false ∧ ¬ParsesIpv6 junk inAddr s := by
  have refused : (inetParseIpv6 junk s inAddr).1 = false := by
    rw [inetParseIpv6_eq,if_neg groups.not_aster]
  refine ⟨refused,fun parses => ?_⟩
  have accepted := parses.accepts.mpr (Or.inr ⟨values,groups⟩)
  rw [refused] at accepted
  cases accepted

/-- Whatever the uninitialised variable holds, the IPv4 parser is right on a string exactly if that is no
dotted quad. -/
theorem parsesIpv4_iff (junk : Nat → Int) (inAddr : InAddr) (s : XfString) :
    ParsesIpv4 junk inAddr s ↔ ¬∃ values, DottedQuad s values := by
  constructor
  · intro parses quad
    obtain ⟨values,quad⟩ := quad
    exact (quad.refused junk inAddr).2 parses
  · intro none
    refine ⟨?_,?_,fun v1 v2 v3 v4 quad => absurd ⟨_,quad⟩ none⟩
    · rw [inetParseIpv4_eq]
      split_ifs with star
      · exact ⟨fun _ => star.imp_right Or.inl,fun _ => rfl⟩
      · constructor
        · intro accepted
          cases accepted
        · intro grammar
          rcases grammar with same | same | quad
          · exact absurd (Or.inl same) star
          · exact absurd (Or.inr same) star
          · exact absurd quad none
    · intro star
      rw [inetParseIpv4_eq,if_pos star]

def quad : XfString := "1.2.3.4".toList.map unit

theorem quad_dotted : DottedQuad quad [1,2,3,4] := by
  have run (c : Char) (value : Nat) (one : decimal (unit c) = some value) : Denotes decimal 10 [unit c] value :=
    ⟨by simp,[value],by simp [one],by simp⟩
  refine ⟨rfl,?_⟩
  refine .more [unit '1'] 1 _ _ (run '1' 1 (by decide)) (by decide) ?_
  refine .more [unit '2'] 2 _ _ (run '2' 2 (by decide)) (by decide) ?_
  refine .more [unit '3'] 3 _ _ (run '3' 3 (by decide)) (by decide) ?_
  exact .last [unit '4'] 4 (run '4' 4 (by decide)) (by decide)

theorem quad_refused : DottedQuad quad [1,2,3,4] ∧
    ∀ junk inAddr, (inetParseIpv4 junk quad inAddr).1 = false ∧ ¬ParsesIpv4 junk inAddr quad :=
  ⟨quad_dotted,quad_dotted.refused⟩

/-- The IPv6 parser is right on a string exactly if that is no address of eight groups. -/
theorem parsesIpv6_iff (junk : Nat → Int) (inAddr : In6Addr) (s : XfString) :
    ParsesIpv6 junk inAddr s ↔ ¬∃ values, EightGroups s values := by
  constructor
  · intro parses groups
    obtain ⟨values,groups⟩ := groups
    exact (groups.refused junk inAddr).2 parses
  · intro none
    refine ⟨?_,?_,fun values groups => absurd ⟨values,groups⟩ none⟩
    · rw [inetParseIpv6_eq]
      split_ifs with star
      · exact ⟨fun _ => Or.inl star,fun _ => rfl⟩
      · constructor
        · intro accepted
          cases accepted
        · intro grammar
          rcases grammar with same | groups
          · exact absurd same star
          · exact absurd groups none
    · intro star
      rw [inetParseIpv6_eq,if_pos star]

def groups : XfString := "1:2:3:4:5:6:7:8".toList.map unit

theorem groups_eight : EightGroups groups [1,2,3,4,5,6,7,8] := by
  have run (c : Char) (value : Nat) (one : hexadecimal (unit c) = some value) :
      Denotes hexadecimal 16 [unit c] value :=
    ⟨by simp,[value],by simp [one],by simp⟩
  refine ⟨rfl,?_⟩
  refine .more [unit '1'] 1 _ _ (run '1' 1 (by decide)) (by decide) ?_
  refine .more [unit '2'] 2 _ _ (run '2' 2 (by decide)) (by decide) ?_
  refine .more [unit '3'] 3 _ _ (run '3' 3 (by decide)) (by decide) ?_
  refine .more [unit '4'] 4 _ _ (run '4' 4 (by decide)) (by decide) ?_
  refine .more [unit '5'] 5 _ _ (run '5' 5 (by decide)) (by decide) ?_
  refine .more [unit '6'] 6 _ _ (run '6' 6 (by decide)) (by decide) ?_
  refine .more [unit '7'] 7 _ _ (run '7' 7 (by decide)) (by decide) ?_
  exact .last [unit '8'] 8 (run '8' 8 (by decide)) (by decide)

theorem groups_refused : EightGroups groups [1,2,3,4,5,6,7,8] ∧
    ∀ junk inAddr, (inetParseIpv6 junk groups inAddr).1 = false ∧ ¬ParsesIpv6 junk inAddr groups :=
  ⟨groups_eight,groups_eight.refused⟩

end Xrossfire.Inet
