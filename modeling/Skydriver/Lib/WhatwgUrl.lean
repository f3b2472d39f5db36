import Skydriver.Lib.PercentEncoding

/-!
# Where a client goes for an https URL

The steps of the WHATWG URL parser for an absolute https URL, as far as they decide which host a client contacts and which
path it requests.  The parser removes tabs and newlines, takes a backslash for a slash, lowercases and decodes the host
and resolves dot segments.  The mapping of domains that are not plain ASCII and the address parsers are parameters.
-/

namespace Whatwg

open Percent

/-- The parts of the host parser that need tables or read addresses. -/
structure HostPrimitives where
  /-- Domain to ASCII, for a percent-decoded domain with other than ASCII characters or with an ACE label. -/
  domainToAscii : List UInt8 → Option (List UInt8)
  parseIpv4 : List UInt8 → Option (BitVec 32)
  /-- An IPv6 address between brackets, serialized. -/
  parseIpv6 : List UInt8 → Option (List UInt8)

/-! ### Bytes -/

def isTabOrNewline (byte : UInt8) : Bool := byte == 0x09 || byte == 0x0A || byte == 0x0D

/-- A C0 control or a space. -/
def isC0OrSpace (byte : UInt8) : Bool := decide (byte ≤ 0x20)

/-- A backslash counts as a slash in a special URL. -/
def isSlash (byte : UInt8) : Bool := byte == 0x2F || byte == 0x5C

def endsAuthority (byte : UInt8) : Bool := isSlash byte || byte == 0x3F || byte == 0x23

def isDigit (byte : UInt8) : Bool := decide (0x30 ≤ byte) && decide (byte ≤ 0x39)

def isUppercase (byte : UInt8) : Bool := decide (0x41 ≤ byte) && decide (byte ≤ 0x5A)

def lowerByte (byte : UInt8) : UInt8 := if isUppercase byte then byte + 0x20 else byte

def lower (text : List UInt8) : List UInt8 := text.map lowerByte

/-- A forbidden domain code point. -/
def isForbidden (byte : UInt8) : Bool :=
  decide (byte ≤ 0x20) || byte == 0x23 || byte == 0x25 || byte == 0x2F || byte == 0x3A || byte == 0x3C || byte == 0x3E ||
    byte == 0x3F || byte == 0x40 || byte == 0x5B || byte == 0x5C || byte == 0x5D || byte == 0x5E || byte == 0x7C ||
    byte == 0x7F

/-! ### Hosts -/

/-- Whether mapping the domain to ASCII takes more than lowercasing. -/
def needsMapping (domain : List UInt8) : Bool :=
  domain.any (fun byte => decide (0x80 ≤ byte)) ||
    (domain.splitOn 0x2E).any fun label => [0x78, 0x6E, 0x2D, 0x2D].isPrefixOf (lower label)

def toAscii (prims : HostPrimitives) (domain : List UInt8) : Option (List UInt8) :=
  (if needsMapping domain then prims.domainToAscii domain else some (lower domain)).bind fun ascii =>
    if ascii.isEmpty || ascii.any isForbidden then none else some ascii

/-- A label that the number parser reads: digits, or hexadecimal digits behind a mark. -/
def isNumber (label : List UInt8) : Bool :=
  !label.isEmpty && label.all isDigit ||
    ([0x30, 0x78].isPrefixOf (lower label) && (label.drop 2).all fun byte => (digitValue byte).isSome)

/-- The ends-in-a-number checker. -/
def endsInNumber (ascii : List UInt8) : Bool :=
  match (ascii.splitOn 0x2E).reverse with
  | [] => false
  | last :: earlier =>
      if last = [] then
        match earlier with
        | [] => false
        | label :: _ => isNumber label
      else isNumber last

/-- The decimal digits of a number below 256. -/
def octetText (octet : Nat) : List UInt8 :=
  (if 100 ≤ octet then [UInt8.ofNat (0x30 + octet / 100)] else []) ++
    (if 10 ≤ octet then [UInt8.ofNat (0x30 + octet / 10 % 10)] else []) ++ [UInt8.ofNat (0x30 + octet % 10)]

/-- The octets of an address, the highest first. -/
def octets (address : BitVec 32) : List Nat :=
  [address.toNat / 16777216 % 256, address.toNat / 65536 % 256, address.toNat / 256 % 256, address.toNat % 256]

def serializeIpv4 (address : BitVec 32) : List UInt8 := [0x2E].intercalate ((octets address).map octetText)

def parseHost (prims : HostPrimitives) (input : List UInt8) : Option (List UInt8) :=
  if input.head? = some 0x5B then
    if input.getLast? = some 0x5D then (prims.parseIpv6 input.tail.dropLast).map fun text => 0x5B :: (text ++ [0x5D])
    else none
  else do
    let ascii ← toAscii prims (decode input)
    if endsInNumber ascii then (prims.parseIpv4 ascii).map serializeIpv4 else some ascii

/-- What stands in front of the first colon outside of brackets, and what behind it. -/
def splitPort : Bool → List UInt8 → List UInt8 × Option (List UInt8)
  | _, [] => ([], none)
  | inside, byte :: rest =>
      if byte = 0x3A ∧ inside = false then ([], some rest)
      else
        let (host, port) := splitPort (if byte = 0x5B then true else if byte = 0x5D then false else inside) rest
        (byte :: host, port)

/-- A port; none inside if it is empty or the default one. -/
def parsePort : Option (List UInt8) → Option (Option Nat)
  | none => some none
  | some digits =>
      if digits.all isDigit then
        let value := digits.foldl (fun value digit => value * 10 + (digit.toNat - 0x30)) 0
        if digits = [] ∨ value = 443 then some none else if 65535 < value then none else some (some value)
      else none

/-- The host and the port of an authority; credentials in front of them are passed over. -/
def parseAuthority (prims : HostPrimitives) (authority : List UInt8) : Option (List UInt8 × Option Nat) :=
  let hostPort := (authority.reverse.takeWhile fun byte => byte != 0x40).reverse
  let (host, port) := splitPort false hostPort
  if host = [] then none
  else do
    let host ← parseHost prims host
    let port ← parsePort port
    return (host, port)

/-! ### Paths -/

def isSingleDot (segment : List UInt8) : Bool := segment == [0x2E] || lower segment == [0x25, 0x32, 0x65]

def isDoubleDot (segment : List UInt8) : Bool :=
  segment == [0x2E, 0x2E] || lower segment == [0x2E, 0x25, 0x32, 0x65] || lower segment == [0x25, 0x32, 0x65, 0x2E] ||
    lower segment == [0x25, 0x32, 0x65, 0x25, 0x32, 0x65]

/-- The bytes outside of the path percent-encode set. -/
def keptInPath (byte : UInt8) : Bool :=
  decide (0x21 ≤ byte) && decide (byte ≤ 0x7E) && byte != 0x22 && byte != 0x23 && byte != 0x3C && byte != 0x3E &&
    byte != 0x3F && byte != 0x5E && byte != 0x60 && byte != 0x7B && byte != 0x7D

/-- Append segments to a path; the last one leaves a slash at the end if it is a dot segment. -/
def pushSegments : List (List UInt8) → List (List UInt8) → List (List UInt8)
  | path, [] => path
  | path, [last] =>
      if isDoubleDot last then path.dropLast ++ [[]]
      else if isSingleDot last then path ++ [[]]
      else path ++ [encode keptInPath last]
  | path, segment :: next :: rest =>
      if isDoubleDot segment then pushSegments path.dropLast (next :: rest)
      else if isSingleDot segment then pushSegments path (next :: rest)
      else pushSegments (path ++ [encode keptInPath segment]) (next :: rest)

def serializePath (path : List (List UInt8)) : List UInt8 := path.flatMap fun segment => 0x2F :: segment

/-- The path of a URL, from what stands behind its authority. -/
def parsePath (text : List UInt8) : List UInt8 :=
  let path := text.takeWhile fun byte => byte != 0x3F && byte != 0x23
  let segments := match path with
    | [] => []
    | first :: rest => if isSlash first then rest else path
  serializePath (pushSegments [] (segments.splitOnP isSlash))

/-! ### URLs -/

/-- Whom a client contacts, and what it requests. -/
structure Destination where
  host : List UInt8
  port : Option Nat
  path : List UInt8
deriving DecidableEq

/-- Remove controls and spaces at the ends, and tabs and newlines everywhere. -/
def cleanInput (input : List UInt8) : List UInt8 :=
  (((input.dropWhile isC0OrSpace).reverse.dropWhile isC0OrSpace).reverse).filter fun byte => !isTabOrNewline byte

/-- Parse an absolute https URL. -/
def parseHttps (prims : HostPrimitives) (input : List UInt8) : Option Destination :=
  let text := cleanInput input
  if lower (text.take 6) = [0x68, 0x74, 0x74, 0x70, 0x73, 0x3A] then
    let rest := (text.drop 6).dropWhile isSlash
    let authority := rest.takeWhile fun byte => !endsAuthority byte
    (parseAuthority prims authority).map fun found =>
      ⟨found.1, found.2, parsePath (rest.dropWhile fun byte => !endsAuthority byte)⟩
  else none

/-! ### What the host parser keeps -/

theorem lower_eq_self_iff {text : List UInt8} : lower text = text ↔ ∀ byte ∈ text, isUppercase byte = false := by
  have hbyte : ∀ bits : BitVec 8, lowerByte ⟨bits⟩ = ⟨bits⟩ ↔ isUppercase ⟨bits⟩ = false := by decide
  rw [lower]
  constructor
  · intro h byte hmem
    have hmapped := List.map_eq_map_iff.mp (h.trans (List.map_id text).symm) byte hmem
    exact (hbyte byte.toBitVec).mp hmapped
  · intro h
    conv_rhs => rw [← List.map_id text]
    apply List.map_congr_left
    intro byte hmem
    exact (hbyte byte.toBitVec).mpr (h byte hmem)

theorem toAscii_eq_some {prims : HostPrimitives} {domain ascii : List UInt8} :
    toAscii prims domain = some ascii ↔
      (if needsMapping domain then prims.domainToAscii domain = some ascii else lower domain = ascii) ∧ ascii ≠ [] ∧
        ∀ byte ∈ ascii, isForbidden byte = false := by
  rw [toAscii]
  constructor
  · intro h
    obtain ⟨found, hfound, h⟩ := Option.bind_eq_some_iff.mp h
    obtain ⟨hcheck, h⟩ := Option.ite_none_left_eq_some.mp h
    cases h
    rw [Bool.or_eq_true, not_or, List.isEmpty_iff, List.any_eq_true] at hcheck
    refine ⟨?_, hcheck.1, ?_⟩
    · split_ifs at hfound ⊢ with hmapping
      · exact hfound
      · exact Option.some.inj hfound
    · intro byte hmem
      rw [← Bool.not_eq_true]
      exact fun hforbidden => hcheck.2 ⟨byte, hmem, hforbidden⟩
  · intro h
    obtain ⟨hfound, hne, hallowed⟩ := h
    have hascii : (if needsMapping domain then prims.domainToAscii domain else some (lower domain)) = some ascii := by
      split_ifs at hfound ⊢ with hmapping
      · exact hfound
      · rw [hfound]
    apply Option.bind_eq_some_iff.mpr
    refine ⟨ascii, hascii, ?_⟩
    rw [if_neg]
    rw [Bool.or_eq_true, not_or, List.isEmpty_iff, List.any_eq_true]
    refine ⟨hne, ?_⟩
    rintro ⟨byte, hmem, hforbidden⟩
    rw [hallowed byte hmem] at hforbidden
    cases hforbidden

theorem mem_octetText {octet : Nat} {byte : UInt8} (hoctet : octet < 256) (h : byte ∈ octetText octet) :
    isDigit byte = true := by
  have hdigit : ∀ digit < 10, isDigit (UInt8.ofNat (0x30 + digit)) = true := by decide
  rw [octetText, List.mem_append, List.mem_append, List.mem_singleton] at h
  rcases h with (hhundreds | htens) | hones
  · rw [List.mem_ite_nil_right, List.mem_singleton] at hhundreds
    rw [hhundreds.2]
    exact hdigit _ (by omega)
  · rw [List.mem_ite_nil_right, List.mem_singleton] at htens
    rw [htens.2]
    exact hdigit _ (by omega)
  · rw [hones]
    exact hdigit _ (by omega)

/-- An address is written in digits and dots. -/
theorem mem_serializeIpv4 {address : BitVec 32} {byte : UInt8} (h : byte ∈ serializeIpv4 address) :
    isDigit byte = true ∨ byte = 0x2E := by
  rcases mem_intercalate h with hdot | ⟨text, htext, hmem⟩
  · exact .inr hdot
  · obtain ⟨octet, hoctet, rfl⟩ := List.mem_map.mp htext
    refine .inl (mem_octetText ?_ hmem)
    simp only [octets, List.mem_cons, List.not_mem_nil, or_false] at hoctet
    omega

/-- A text that is a domain and neither a number nor an address. -/
structure IsDomain (text : List UInt8) : Prop where
  letter : ∃ byte ∈ text, isDigit byte = false ∧ byte ≠ 0x2E
  last : text.getLast? ≠ some 0x5D
  unnumbered : endsInNumber text = false

/-- Which hosts the parser takes to a given domain. -/
theorem parseHost_eq_some {prims : HostPrimitives} {input domain : List UInt8} (hdomain : IsDomain domain) :
    parseHost prims input = some domain ↔ input.head? ≠ some 0x5B ∧
      (if needsMapping (decode input) then prims.domainToAscii (decode input) = some domain
        else lower (decode input) = domain) ∧ ∀ byte ∈ domain, isForbidden byte = false := by
  obtain ⟨letter, hletter, hdigit, hdot⟩ := hdomain.letter
  rw [parseHost]
  constructor
  · intro h
    split_ifs at h with hbracket hclosed
    · obtain ⟨text, _, htext⟩ := Option.map_eq_some_iff.mp h
      refine absurd ?_ hdomain.last
      rw [← htext, ← List.cons_append, List.getLast?_concat]
    · refine ⟨hbracket, ?_⟩
      obtain ⟨ascii, hascii, h⟩ := Option.bind_eq_some_iff.mp h
      split_ifs at h with hnumber
      · obtain ⟨address, _, haddress⟩ := Option.map_eq_some_iff.mp h
        rcases mem_serializeIpv4 (haddress ▸ hletter) with hfound | hfound
        · rw [hdigit] at hfound
          cases hfound
        · exact absurd hfound hdot
      · cases h
        obtain ⟨hmapped, _, hallowed⟩ := toAscii_eq_some.mp hascii
        exact ⟨hmapped, hallowed⟩
  · intro h
    obtain ⟨hbracket, hmapped, hallowed⟩ := h
    rw [if_neg hbracket]
    apply Option.bind_eq_some_iff.mpr
    refine ⟨domain, toAscii_eq_some.mpr ⟨hmapped, List.ne_nil_of_mem hletter, hallowed⟩, ?_⟩
    rw [if_neg (by rw [hdomain.unnumbered]; exact Bool.false_ne_true)]

/-! ### What the parser keeps of a path -/

/-- Slashes separate segments. -/
theorem serializePath_splitOn (text : List UInt8) : serializePath (text.splitOn 0x2F) = 0x2F :: text := by
  have hjoin : ∀ segments : List (List UInt8), segments ≠ [] →
      serializePath segments = 0x2F :: [0x2F].intercalate segments := by
    intro segments hne
    induction segments with
    | nil => exact absurd rfl hne
    | cons first rest ih =>
        cases rest with
        | nil => simp [serializePath]
        | cons second rest =>
            rw [List.intercalate_cons_cons, List.append_assoc, List.singleton_append, ← ih (List.cons_ne_nil _ _)]
            simp [serializePath]
  rw [hjoin _ (List.splitOn_ne_nil _ _), List.intercalate_splitOn]

theorem splitOnP_isSlash {text : List UInt8} (h : 0x5C ∉ text) : text.splitOnP isSlash = text.splitOn 0x2F := by
  induction text with
  | nil => rfl
  | cons byte rest ih =>
      rw [List.mem_cons, not_or] at h
      rw [List.splitOnP_cons_eq_if_modifyHead, List.splitOn_cons_eq_if_modifyHead, ih h.2, isSlash]
      have hbackslash : (byte == 0x5C) = false := by simpa using Ne.symm h.1
      rw [hbackslash, Bool.or_false]

/-- The escaped dot, in either case. -/
theorem decode_of_lower_escape {text behind : List UInt8} (h : lower text = 0x25 :: 0x32 :: 0x65 :: behind) :
    ∃ rest, lower rest = behind ∧ decode text = 0x2E :: decode rest := by
  have hpercent : ∀ bits : BitVec 8, lowerByte ⟨bits⟩ = 0x25 → (⟨bits⟩ : UInt8) = 0x25 := by decide
  have htwo : ∀ bits : BitVec 8, lowerByte ⟨bits⟩ = 0x32 → (⟨bits⟩ : UInt8) = 0x32 := by decide
  have hletter : ∀ bits : BitVec 8, lowerByte ⟨bits⟩ = 0x65 → digitValue ⟨bits⟩ = some 14 := by decide
  rw [lower, List.map_eq_cons_iff] at h
  obtain ⟨first, text, rfl, hfirst, h⟩ := h
  rw [List.map_eq_cons_iff] at h
  obtain ⟨second, text, rfl, hsecond, h⟩ := h
  rw [List.map_eq_cons_iff] at h
  obtain ⟨third, rest, rfl, hthird, h⟩ := h
  refine ⟨rest, h, ?_⟩
  have hfirst' : first = 0x25 := hpercent first.toBitVec hfirst
  have hsecond' : second = 0x32 := htwo second.toBitVec hsecond
  have hthird' : digitValue third = some 14 := hletter third.toBitVec hthird
  rw [hfirst', hsecond', decode, if_pos rfl, hthird']
  rfl

theorem decode_of_lower_dot {text behind : List UInt8} (h : lower text = 0x2E :: behind) :
    ∃ rest, lower rest = behind ∧ decode text = 0x2E :: decode rest := by
  have hdot : ∀ bits : BitVec 8, lowerByte ⟨bits⟩ = 0x2E → (⟨bits⟩ : UInt8) = 0x2E := by decide
  rw [lower, List.map_eq_cons_iff] at h
  obtain ⟨first, rest, rfl, hfirst, h⟩ := h
  refine ⟨rest, h, ?_⟩
  have hfirst' : first = 0x2E := hdot first.toBitVec hfirst
  rw [hfirst', decode_cons_of_ne (by decide)]

theorem eq_nil_of_lower {text : List UInt8} (h : lower text = []) : text = [] := List.map_eq_nil_iff.mp h

/-- What is taken for a dot segment decodes to one. -/
theorem decode_of_isSingleDot {segment : List UInt8} (h : isSingleDot segment = true) : decode segment = [0x2E] := by
  rw [isSingleDot, Bool.or_eq_true, beq_iff_eq, beq_iff_eq] at h
  rcases h with rfl | hlower
  · rfl
  · obtain ⟨rest, hrest, hdecode⟩ := decode_of_lower_escape hlower
    rw [hdecode, eq_nil_of_lower hrest]
    rfl

theorem decode_of_isDoubleDot {segment : List UInt8} (h : isDoubleDot segment = true) :
    decode segment = [0x2E, 0x2E] := by
  simp only [isDoubleDot, Bool.or_eq_true, beq_iff_eq] at h
  rcases h with ((rfl | hlower) | hlower) | hlower
  · rfl
  · obtain ⟨rest, hrest, hdecode⟩ := decode_of_lower_dot hlower
    obtain ⟨last, hlast, hdecode'⟩ := decode_of_lower_escape hrest
    rw [hdecode, hdecode', eq_nil_of_lower hlast]
    rfl
  · obtain ⟨rest, hrest, hdecode⟩ := decode_of_lower_escape hlower
    obtain ⟨last, hlast, hdecode'⟩ := decode_of_lower_dot hrest
    rw [hdecode, hdecode', eq_nil_of_lower hlast]
    rfl
  · obtain ⟨rest, hrest, hdecode⟩ := decode_of_lower_escape hlower
    obtain ⟨last, hlast, hdecode'⟩ := decode_of_lower_escape hrest
    rw [hdecode, hdecode', eq_nil_of_lower hlast]
    rfl

/-- Every byte of the segment stays as it is. -/
def Kept (segment : List UInt8) : Prop := ∀ byte ∈ segment, keptInPath byte = true

theorem pushSegments_plain {path segments : List (List UInt8)} (hkept : ∀ segment ∈ segments, Kept segment)
    (hdouble : ∀ segment ∈ segments, isDoubleDot segment = false)
    (hsingle : ∀ segment ∈ segments, isSingleDot segment = false) : pushSegments path segments = path ++ segments := by
  fun_induction pushSegments path segments with
  | case1 path => exact (List.append_nil path).symm
  | case2 path last hdots =>
      rw [hdouble last List.mem_cons_self] at hdots
      cases hdots
  | case3 path last _ hdot =>
      rw [hsingle last List.mem_cons_self] at hdot
      cases hdot
  | case4 path last _ _ => rw [encode_of_keep (hkept last List.mem_cons_self)]
  | case5 path segment next rest hdots =>
      rw [hdouble segment List.mem_cons_self] at hdots
      cases hdots
  | case6 path segment next rest _ hdot =>
      rw [hsingle segment List.mem_cons_self] at hdot
      cases hdot
  | case7 path segment next rest _ _ ih =>
      rw [ih (fun other hmem => hkept other (List.mem_cons_of_mem _ hmem))
        (fun other hmem => hdouble other (List.mem_cons_of_mem _ hmem))
        (fun other hmem => hsingle other (List.mem_cons_of_mem _ hmem)),
        encode_of_keep (hkept segment List.mem_cons_self), List.append_assoc, List.singleton_append]

theorem length_serializePath_append (front back : List (List UInt8)) :
    (serializePath (front ++ back)).length = (serializePath front).length + (serializePath back).length := by
  rw [serializePath, List.flatMap_append, List.length_append]
  rfl

/-- Resolving single-dot segments makes a path shorter. -/
theorem length_pushSegments {path segments : List (List UInt8)} (hkept : ∀ segment ∈ segments, Kept segment)
    (hdouble : ∀ segment ∈ segments, isDoubleDot segment = false) :
    (serializePath (pushSegments path segments)).length +
        (segments.filter isSingleDot).length ≤
      (serializePath path).length + (serializePath segments).length := by
  have hdot : ∀ {segment : List UInt8}, isSingleDot segment = true → 1 ≤ segment.length := by
    intro segment hsingle
    rw [isSingleDot, Bool.or_eq_true, beq_iff_eq, beq_iff_eq] at hsingle
    rcases hsingle with rfl | hlower
    · decide
    · have hlength := congrArg List.length hlower
      rw [lower, List.length_map] at hlength
      rw [hlength]
      decide
  have hone : ∀ segment : List UInt8, (serializePath [segment]).length = segment.length + 1 := by
    intro segment
    simp [serializePath]
  fun_induction pushSegments path segments with
  | case1 path => simp [serializePath]
  | case2 path last hdots =>
      rw [hdouble last List.mem_cons_self] at hdots
      cases hdots
  | case3 path last _ hsingle =>
      have hlength := hdot hsingle
      rw [length_serializePath_append, hone, hone, List.filter_cons_of_pos hsingle, List.filter_nil]
      simp only [List.length_nil, List.length_singleton]
      omega
  | case4 path last _ hsingle =>
      rw [length_serializePath_append, encode_of_keep (hkept last List.mem_cons_self),
        List.filter_cons_of_neg hsingle, List.filter_nil]
      exact le_rfl
  | case5 path segment next rest hdots =>
      rw [hdouble segment List.mem_cons_self] at hdots
      cases hdots
  | case6 path segment next rest _ hsingle ih =>
      have hrest := ih (fun other hmem => hkept other (List.mem_cons_of_mem _ hmem))
        (fun other hmem => hdouble other (List.mem_cons_of_mem _ hmem))
      have hlength := hdot hsingle
      have hsplit := length_serializePath_append [segment] (next :: rest)
      rw [List.singleton_append, hone] at hsplit
      rw [List.filter_cons_of_pos hsingle, List.length_cons]
      omega
  | case7 path segment next rest _ hsingle ih =>
      have hrest := ih (fun other hmem => hkept other (List.mem_cons_of_mem _ hmem))
        (fun other hmem => hdouble other (List.mem_cons_of_mem _ hmem))
      have hsplit := length_serializePath_append [segment] (next :: rest)
      rw [List.singleton_append] at hsplit
      rw [length_serializePath_append] at hrest
      rw [encode_of_keep (hkept segment List.mem_cons_self)] at hrest ⊢
      rw [List.filter_cons_of_neg hsingle]
      omega

/-- Without double-dot segments, a path is kept exactly if it has no single-dot segment either. -/
theorem pushSegments_kept_iff {segments : List (List UInt8)} (hkept : ∀ segment ∈ segments, Kept segment)
    (hdouble : ∀ segment ∈ segments, isDoubleDot segment = false) :
    serializePath (pushSegments [] segments) = serializePath segments ↔
      ∀ segment ∈ segments, isSingleDot segment = false := by
  constructor
  · intro h segment hmem
    by_contra hsingle
    have hlength := @length_pushSegments [] segments hkept hdouble
    rw [h] at hlength
    have hcount : 0 < (segments.filter isSingleDot).length :=
      List.length_pos_of_mem (List.mem_filter.mpr ⟨hmem, by simpa using hsingle⟩)
    have hnil : (serializePath []).length = 0 := rfl
    omega
  · intro hsingle
    rw [pushSegments_plain hkept hdouble hsingle, List.nil_append]

/-! ### Whole URLs -/

/-- `https://` -/
def https : List UInt8 := [0x68, 0x74, 0x74, 0x70, 0x73, 0x3A, 0x2F, 0x2F]

/-- A byte that neither ends an authority nor structures it. -/
def isHostByte (byte : UInt8) : Bool := !endsAuthority byte && byte != 0x40 && byte != 0x3A

/-- The authority without what the parser removes. -/
def withoutTabs (text : List UInt8) : List UInt8 := text.filter fun byte => !isTabOrNewline byte

theorem splitPort_plain {host : List UInt8} (h : 0x3A ∉ host) (inside : Bool) : splitPort inside host = (host, none) := by
  induction host generalizing inside with
  | nil => rfl
  | cons byte rest ih =>
      rw [List.mem_cons, not_or] at h
      rw [splitPort, if_neg (fun hcolon => h.1 hcolon.1.symm), ih h.2]

theorem takeWhile_eq_self_of_forall {test : UInt8 → Bool} {text : List UInt8} (h : ∀ byte ∈ text, test byte = true) :
    text.takeWhile test = text := List.takeWhile_eq_self_iff.mpr h

theorem parseAuthority_plain {prims : HostPrimitives} {host : List UInt8} (hne : host ≠ [])
    (h : ∀ byte ∈ host, isHostByte byte = true) :
    parseAuthority prims host = (parseHost prims host).map fun found => (found, none) := by
  have hat : ∀ byte ∈ host.reverse, (byte != 0x40) = true := by
    intro byte hmem
    have hbyte := h byte (List.mem_reverse.mp hmem)
    simp only [isHostByte, Bool.and_eq_true] at hbyte
    exact hbyte.1.2
  have hcolon : 0x3A ∉ host := by
    intro hmem
    exact absurd (h _ hmem) (by decide)
  rw [parseAuthority, takeWhile_eq_self_of_forall hat, List.reverse_reverse, splitPort_plain hcolon]
  dsimp only
  rw [if_neg hne]
  cases parseHost prims host with
  | none => rfl
  | some found => rfl

/-- Whatever a client contacts, the host parser has read it. -/
theorem parseHttps_host {prims : HostPrimitives} {input : List UInt8} {destination : Destination}
    (h : parseHttps prims input = some destination) : ∃ host, parseHost prims host = some destination.host := by
  rw [parseHttps] at h
  obtain ⟨_, h⟩ := Option.ite_none_right_eq_some.mp h
  obtain ⟨found, hfound, rfl⟩ := Option.map_eq_some_iff.mp h
  rw [parseAuthority] at hfound
  obtain ⟨_, hfound⟩ := Option.ite_none_left_eq_some.mp hfound
  obtain ⟨host, hhost, hfound⟩ := Option.bind_eq_some_iff.mp hfound
  obtain ⟨port, _, hfound⟩ := Option.bind_eq_some_iff.mp hfound
  cases hfound
  exact ⟨_, hhost⟩

theorem cleanInput_of_ends {front : List UInt8} {first last : UInt8} (hfirst : isC0OrSpace first = false)
    (hlast : isC0OrSpace last = false) : cleanInput (first :: (front ++ [last])) = withoutTabs (first :: (front ++ [last])) := by
  rw [cleanInput, List.dropWhile_cons_of_neg (by rw [hfirst]; exact Bool.false_ne_true), ← List.cons_append,
    List.reverse_append, List.reverse_singleton, List.singleton_append,
    List.dropWhile_cons_of_neg (by rw [hlast]; exact Bool.false_ne_true), ← List.singleton_append,
    List.reverse_append, List.reverse_reverse]
  rfl

/-- A byte of a path that is neither removed, nor a backslash, nor the end of the path. -/
def isPathByte (byte : UInt8) : Bool := !isTabOrNewline byte && byte != 0x5C && byte != 0x3F && byte != 0x23

theorem parsePath_plain {inner query : List UInt8} (h : ∀ byte ∈ inner, isPathByte byte = true) :
    parsePath (0x2F :: (inner ++ 0x3F :: query)) = serializePath (pushSegments [] (inner.splitOn 0x2F)) := by
  have hbackslash : 0x5C ∉ inner := by
    intro hmem
    exact absurd (h _ hmem) (by decide)
  have htake : (0x2F :: (inner ++ 0x3F :: query)).takeWhile (fun byte => byte != 0x3F && byte != 0x23) =
      0x2F :: inner := by
    rw [List.takeWhile_cons_of_pos (by decide), List.takeWhile_append_of_pos, List.takeWhile_cons_of_neg (by decide),
      List.append_nil]
    intro byte hmem
    have hbyte := h byte hmem
    simp only [isPathByte, Bool.and_eq_true] at hbyte ⊢
    exact ⟨hbyte.1.2, hbyte.2⟩
  rw [parsePath, htake]
  change serializePath (pushSegments [] (inner.splitOnP isSlash)) = _
  rw [splitOnP_isSlash hbackslash]

/-- How a URL with a plain authority is read. -/
theorem parseHttps_plain {prims : HostPrimitives} {authority inner query : List UInt8} {last : UInt8}
    (hne : withoutTabs authority ≠ []) (hhost : ∀ byte ∈ withoutTabs authority, isHostByte byte = true)
    (hinner : ∀ byte ∈ inner, isPathByte byte = true) (hlast : isC0OrSpace last = false) :
    parseHttps prims (https ++ (authority ++ 0x2F :: (inner ++ 0x3F :: (query ++ [last])))) =
      (parseHost prims (withoutTabs authority)).map fun host =>
        ⟨host, none, serializePath (pushSegments [] (inner.splitOn 0x2F))⟩ := by
  have hclean : cleanInput (https ++ (authority ++ 0x2F :: (inner ++ 0x3F :: (query ++ [last])))) =
      https ++ (withoutTabs authority ++ 0x2F :: (inner ++ 0x3F :: withoutTabs (query ++ [last]))) := by
    have hends := @cleanInput_of_ends (https.tail ++ (authority ++ 0x2F :: (inner ++ 0x3F :: query))) 0x68 last
      (by decide) hlast
    have hsame : withoutTabs inner = inner := by
      rw [withoutTabs, List.filter_eq_self]
      intro byte hmem
      have hbyte := hinner byte hmem
      simp only [isPathByte, Bool.and_eq_true] at hbyte
      exact hbyte.1.1.1
    have hshape : https ++ (authority ++ 0x2F :: (inner ++ 0x3F :: (query ++ [last]))) =
        0x68 :: (https.tail ++ (authority ++ 0x2F :: (inner ++ 0x3F :: query)) ++ [last]) := by
      simp [https]
    rw [hshape, hends, ← hshape, withoutTabs, List.filter_append, List.filter_append, List.filter_cons_of_pos (by decide),
      List.filter_append, List.filter_cons_of_pos (by decide)]
    rw [withoutTabs] at hsame
    rw [hsame]
    rfl
  obtain ⟨first, rest, hcons⟩ := List.exists_cons_of_ne_nil hne
  have hends : ∀ byte ∈ withoutTabs authority, (!endsAuthority byte) = true := by
    intro byte hmem
    have hbyte := hhost byte hmem
    simp only [isHostByte, Bool.and_eq_true] at hbyte
    exact hbyte.1.1
  have hslash : isSlash first = false := by
    have hfirst := hends first (hcons ▸ List.mem_cons_self)
    simp only [endsAuthority, Bool.not_eq_true', Bool.or_eq_false_iff] at hfirst
    exact hfirst.1.1
  have hdrop : (List.drop 6 (https ++ (withoutTabs authority ++
      0x2F :: (inner ++ 0x3F :: withoutTabs (query ++ [last]))))).dropWhile isSlash =
        withoutTabs authority ++ 0x2F :: (inner ++ 0x3F :: withoutTabs (query ++ [last])) := by
    rw [hcons]
    change List.dropWhile isSlash (0x2F :: 0x2F :: first :: _) = _
    rw [List.dropWhile_cons_of_pos (by decide), List.dropWhile_cons_of_pos (by decide),
      List.dropWhile_cons_of_neg (by rw [hslash]; exact Bool.false_ne_true)]
    rfl
  rw [parseHttps, hclean]
  dsimp only
  rw [if_pos (by rfl), hdrop, List.takeWhile_append_of_pos hends, List.takeWhile_cons_of_neg (by decide),
    List.append_nil, List.dropWhile_append_of_pos hends, List.dropWhile_cons_of_neg (by decide),
    parseAuthority_plain hne hhost, parsePath_plain hinner, Option.map_map]
  rfl

end Whatwg
