import Skydriver.Lib.WhatwgUrl
import Skydriver.Control.SignedGrants

/-!
# Where a presigned URL leads

The endpoint of an R2 driver and the keys of its objects are free texts that a few checks let through, and a client reads
the URL by rules that the signer does not apply.  The client goes to the signed host and requests the signed path exactly
if the host has no character that URLs give a meaning to, and no segment of the key is a dot.
-/

namespace Skydriver.R2Signing

open Percent Whatwg

/-! ### Trimming an authority -/

def isWhitespaceByte (byte : UInt8) : Bool := whitespace.any fun space => space.contains byte

theorem whitespace_byte {space : Text} (hspace : space ∈ whitespace) {byte : UInt8} (hmem : byte ∈ space) :
    isWhitespaceByte byte = true :=
  List.any_eq_true.mpr ⟨space, hspace, List.contains_iff_mem.mpr hmem⟩

/-- White space that a text starts with lies in front of a part that has none. -/
theorem trimStartFrom_append {back : Text} (hne : back ≠ []) (hback : ∀ byte ∈ back, isWhitespaceByte byte = false)
    (fuel : Nat) (front : Text) :
    ∃ spaces rest, front = spaces ++ rest ∧ (∀ byte ∈ spaces, isWhitespaceByte byte = true) ∧
      trimStartFrom fuel (front ++ back) = rest ++ back := by
  induction fuel generalizing front with
  | zero => exact ⟨[], front, rfl, fun _ hmem => (List.not_mem_nil hmem).elim, rfl⟩
  | succ fuel ih =>
      rw [trimStartFrom]
      split
      · rename_i space hfind
        have hspace := List.mem_of_find?_eq_some hfind
        have hfound := List.find?_some hfind
        have hstart : space <+: front ++ back := List.isPrefixOf_iff_prefix.mp hfound
        have hshort : space.length ≤ front.length := by
          by_contra hlong
          obtain ⟨first, rest, rfl⟩ := List.exists_cons_of_ne_nil hne
          have hfirst : first ∈ space := by
            obtain ⟨behind, hbehind⟩ := hstart
            have hget : (space ++ behind)[front.length]? = some first := by
              rw [hbehind, List.getElem?_append_right le_rfl, Nat.sub_self, List.getElem?_cons_zero]
            rw [List.getElem?_append_left (by omega)] at hget
            exact List.mem_of_getElem? hget
          have hplain := hback first List.mem_cons_self
          rw [whitespace_byte hspace hfirst] at hplain
          cases hplain
        obtain ⟨rest, rfl⟩ := List.prefix_of_prefix_length_le hstart (List.prefix_append front back) hshort
        rw [List.append_assoc, List.drop_left]
        obtain ⟨spaces, after, rfl, hspaces, htrim⟩ := ih rest
        refine ⟨space ++ spaces, after, by rw [List.append_assoc], ?_, htrim⟩
        intro byte hmem
        rcases List.mem_append.mp hmem with hfirst | hrest
        · exact whitespace_byte hspace hfirst
        · exact hspaces byte hrest
      · exact ⟨[], front, rfl, fun _ hmem => (List.not_mem_nil hmem).elim, rfl⟩

theorem trimEndFrom_append {back : Text} (hne : back ≠ []) (hback : ∀ byte ∈ back, isWhitespaceByte byte = false)
    (fuel : Nat) (front : Text) : trimEndFrom fuel (front ++ back) = front ++ back := by
  cases fuel with
  | zero => rfl
  | succ fuel =>
      rw [trimEndFrom]
      split
      · rename_i space hfind
        have hspace := List.mem_of_find?_eq_some hfind
        have hfound := List.find?_some hfind
        have hsuffix : space <:+ front ++ back := List.isSuffixOf_iff_suffix.mp hfound
        have hnonempty : space ≠ [] := by
          rintro rfl
          revert hspace
          decide
        have hlast : space.getLast hnonempty = back.getLast hne := by
          obtain ⟨ahead, hahead⟩ := hsuffix
          have hends := congrArg List.getLast? hahead
          rw [List.getLast?_append_of_ne_nil _ hnonempty, List.getLast?_append_of_ne_nil _ hne,
            List.getLast?_eq_some_getLast hnonempty, List.getLast?_eq_some_getLast hne] at hends
          exact Option.some.inj hends
        have hplain := hback _ (List.getLast_mem hne)
        rw [← hlast, whitespace_byte hspace (List.getLast_mem hnonempty)] at hplain
        cases hplain
      · rfl

theorem trim_append {back : Text} (hne : back ≠ []) (hback : ∀ byte ∈ back, isWhitespaceByte byte = false)
    (front : Text) :
    ∃ spaces rest, front = spaces ++ rest ∧ (∀ byte ∈ spaces, isWhitespaceByte byte = true) ∧
      trim (front ++ back) = rest ++ back := by
  obtain ⟨spaces, rest, hfront, hspaces, htrim⟩ := trimStartFrom_append hne hback (front ++ back).length front
  refine ⟨spaces, rest, hfront, hspaces, ?_⟩
  rw [trim, htrim]
  exact trimEndFrom_append hne hback _ rest

/-! ### The host -/

/-- The client contacts the signed host: nothing in it has a meaning in URLs, and mapping it to ASCII leaves it as it
is. -/
def HostKept (hosts : HostPrimitives) (authority : Text) : Prop :=
  (∀ byte ∈ trim authority, isForbidden byte = false) ∧
    if needsMapping (withoutTabs authority) then
      hosts.domainToAscii (withoutTabs authority) = some (trim authority)
    else withoutTabs authority = trim authority ∧ ∀ byte ∈ trim authority, Whatwg.isUppercase byte = false

/-- What the checks of a configuration say of its authority. -/
structure Trimmed (authority spaces rest : Text) : Prop where
  split : authority = spaces ++ (rest ++ hostSuffix)
  spaces : ∀ byte ∈ spaces, isWhitespaceByte byte = true
  trim : trim authority = rest ++ hostSuffix

/-- A byte of ASCII above the space. -/
def isVisible (byte : UInt8) : Bool := decide (0x20 < byte) && decide (byte < 0x80)

theorem isVisible_of_isWhitespaceByte {byte : UInt8} (h : isWhitespaceByte byte = true) : isVisible byte = false := by
  have hwhitespace : (whitespace.all fun space => space.all fun byte => !isVisible byte) = true := by decide
  obtain ⟨space, hspace, hmem⟩ := List.any_eq_true.mp h
  have hall := List.all_eq_true.mp (List.all_eq_true.mp hwhitespace space hspace) byte (List.contains_iff_mem.mp hmem)
  rwa [Bool.not_eq_true'] at hall

theorem hostSuffix_visible : hostSuffix.all isVisible = true := by decide

theorem hostSuffix_plain : ∀ byte ∈ hostSuffix, isWhitespaceByte byte = false := by
  intro byte hmem
  rw [← Bool.not_eq_true]
  intro hspace
  have hvisible := List.all_eq_true.mp hostSuffix_visible byte hmem
  rw [isVisible_of_isWhitespaceByte hspace] at hvisible
  cases hvisible

theorem exists_trimmed {authority : Text} (h : hostSuffix <:+ authority) :
    ∃ spaces rest, Trimmed authority spaces rest := by
  obtain ⟨front, rfl⟩ := h
  obtain ⟨spaces, rest, rfl, hspaces, htrim⟩ := trim_append (by decide) hostSuffix_plain front
  exact ⟨spaces, rest, List.append_assoc _ _ _, hspaces, htrim⟩

theorem isDomain_append_hostSuffix (rest : Text) : IsDomain (rest ++ hostSuffix) where
  letter := ⟨0x6D, List.mem_append_right _ (by decide), by decide, by decide⟩
  last := by
    rw [List.getLast?_append_of_ne_nil _ (by decide)]
    decide
  unnumbered := by
    have hsplit : hostSuffix = utf8 ".r2.cloudflarestorage" ++ 0x2E :: utf8 "com" := by decide
    rw [endsInNumber, hsplit, ← List.append_assoc, List.splitOn_append_cons_of_beq _ _ (beq_self_eq_true _)]
    have hcom : (utf8 "com").splitOn 0x2E = [utf8 "com"] := by decide
    rw [hcom, List.reverse_append, List.reverse_singleton, List.singleton_append]
    dsimp only
    rw [if_neg (by decide)]
    decide

theorem isHostByte_of_plain {byte : UInt8} (h : isVisible byte = false ∨ isForbidden byte = false) :
    isHostByte byte = true ∧ byte ≠ 0x25 ∧ byte ≠ 0x5B := by
  have hne : ∀ special : UInt8, isVisible special && isForbidden special → byte ≠ special := by
    rintro special hspecial rfl
    rw [Bool.and_eq_true] at hspecial
    rcases h with hspace | hallowed
    · rw [hspace] at hspecial
      cases hspecial.1
    · rw [hallowed] at hspecial
      cases hspecial.2
  refine ⟨?_, hne 0x25 (by decide), hne 0x5B (by decide)⟩
  simp [isHostByte, endsAuthority, isSlash, hne 0x2F (by decide), hne 0x5C (by decide), hne 0x3F (by decide),
    hne 0x23 (by decide), hne 0x40 (by decide), hne 0x3A (by decide)]

theorem isTabOrNewline_of_allowed {byte : UInt8} (h : isForbidden byte = false) : isTabOrNewline byte = false := by
  rw [← Bool.not_eq_true, isTabOrNewline, Bool.or_eq_true, Bool.or_eq_true, beq_iff_eq, beq_iff_eq, beq_iff_eq]
  rintro ((rfl | rfl) | rfl) <;> exact absurd h (by decide)

/-- Bytes of white space other than tabs and newlines, and bytes that are allowed in a domain, do not structure an
authority. -/
theorem withoutTabs_plain {authority spaces rest : Text} (h : Trimmed authority spaces rest)
    (hallowed : ∀ byte ∈ rest ++ hostSuffix, isForbidden byte = false) :
    ∀ byte ∈ withoutTabs authority, isHostByte byte = true ∧ byte ≠ 0x25 ∧ byte ≠ 0x5B := by
  intro byte hmem
  rw [withoutTabs, List.mem_filter, h.split, List.mem_append, Bool.not_eq_true'] at hmem
  apply isHostByte_of_plain
  rcases hmem.1 with hspace | hdomain
  · exact .inl (isVisible_of_isWhitespaceByte (h.spaces byte hspace))
  · exact .inr (hallowed byte hdomain)

theorem withoutTabs_eq {authority spaces rest : Text} (h : Trimmed authority spaces rest)
    (hallowed : ∀ byte ∈ rest ++ hostSuffix, isForbidden byte = false) :
    withoutTabs authority = withoutTabs spaces ++ (rest ++ hostSuffix) := by
  have hdomain : withoutTabs (rest ++ hostSuffix) = rest ++ hostSuffix := by
    rw [withoutTabs, List.filter_eq_self]
    intro byte hmem
    have hplain : isTabOrNewline byte = false := isTabOrNewline_of_allowed (hallowed byte hmem)
    rw [hplain]
    rfl
  calc withoutTabs authority
      = withoutTabs spaces ++ withoutTabs (rest ++ hostSuffix) := by
        rw [h.split, withoutTabs, List.filter_append]
        rfl
    _ = withoutTabs spaces ++ (rest ++ hostSuffix) := by rw [hdomain]

/-- The host parser takes the authority to the signed host exactly if the host is kept. -/
theorem parseHost_kept_iff (hosts : HostPrimitives) {authority spaces rest : Text} (h : Trimmed authority spaces rest) :
    (parseHost hosts (withoutTabs authority) = some (trim authority) ∧
      ∀ byte ∈ trim authority, isForbidden byte = false) ↔ HostKept hosts authority := by
  rw [HostKept, h.trim, parseHost_eq_some (isDomain_append_hostSuffix rest)]
  constructor
  · intro hkept
    obtain ⟨⟨_, hmapped, _⟩, hallowed⟩ := hkept
    refine ⟨hallowed, ?_⟩
    have hpercent : 0x25 ∉ withoutTabs authority := fun hmem => (withoutTabs_plain h hallowed _ hmem).2.1 rfl
    rw [decode_of_not_mem hpercent] at hmapped
    split_ifs at hmapped ⊢ with hmapping
    · exact hmapped
    · have hsplit := withoutTabs_eq h hallowed
      have hlength := congrArg List.length hmapped
      rw [Whatwg.lower, List.length_map, hsplit, List.length_append] at hlength
      have hnil : withoutTabs spaces = [] := List.eq_nil_of_length_eq_zero (by omega)
      rw [hnil, List.nil_append] at hsplit
      rw [hsplit] at hmapped ⊢
      exact ⟨rfl, lower_eq_self_iff.mp hmapped⟩
  · intro hkept
    obtain ⟨hallowed, hmapped⟩ := hkept
    have hpercent : 0x25 ∉ withoutTabs authority := fun hmem => (withoutTabs_plain h hallowed _ hmem).2.1 rfl
    refine ⟨⟨?_, ?_, hallowed⟩, hallowed⟩
    · intro hhead
      exact (withoutTabs_plain h hallowed _ (List.mem_of_head? hhead)).2.2 rfl
    · rw [decode_of_not_mem hpercent]
      split_ifs at hmapped ⊢ with hmapping
      · exact hmapped
      · rw [hmapped.1]
        exact lower_eq_self_iff.mpr hmapped.2

/-! ### The path -/

/-- No segment of the key is a single dot. -/
def KeyKept (key : Text) : Prop := [0x2E] ∉ key.splitOn 0x2F

theorem percentEncode_byte {value : Text} {encodeSlash : Bool} {byte : UInt8}
    (h : byte ∈ percentEncode value encodeSlash) : isPathByte byte = true ∧ keptInPath byte = true := by
  have hbyte : ∀ bits : BitVec 8, unreserved false ⟨bits⟩ = true ∨ (⟨bits⟩ : UInt8) = 0x25 ∨
      isUpperDigit ⟨bits⟩ = true → isPathByte ⟨bits⟩ = true ∧ keptInPath ⟨bits⟩ = true := by
    decide
  have hunreserved : unreserved encodeSlash byte = true → unreserved false byte = true := by
    intro hplain
    rw [unreserved, Bool.or_eq_true] at hplain ⊢
    exact hplain.imp_right fun hslash => by rw [Bool.not_false, Bool.true_and]; exact (Bool.and_eq_true _ _ ▸ hslash).2
  exact hbyte byte.toBitVec ((mem_encode h).imp_left hunreserved)

theorem isSingleDot_percentEncode (segment : Text) (encodeSlash : Bool) :
    isSingleDot (percentEncode segment encodeSlash) = true ↔ segment = [0x2E] := by
  constructor
  · intro h
    rw [← decode_of_isSingleDot h, decode_percentEncode]
  · rintro rfl
    cases encodeSlash <;> decide

theorem not_doubleDot {config : Config} {storageKey key segment : Text} (hconfig : validConfig config = true)
    (hkey : objectKey config storageKey = some key) (hmem : segment ∈ key.splitOn 0x2F) : segment ≠ dots := by
  rintro rfl
  rw [objectKey] at hkey
  obtain ⟨hchecks, hkey⟩ := Option.ite_none_left_eq_some.mp hkey
  cases hkey
  simp only [Bool.or_eq_true, not_or, containsText, decide_eq_true_eq] at hchecks
  have hstorage : ¬dots <:+: storageKey := hchecks.1.2
  have hparts : ¬dots <:+: config.keyPrefix ∧ (config.keyPrefix = [] ∨ config.keyPrefix.getLast? = some 0x2F) := by
    rw [validConfig] at hconfig
    split at hconfig
    · cases hconfig
    · simp only [Bool.and_eq_true, Bool.or_eq_true, List.isEmpty_iff, beq_iff_eq, Bool.not_eq_true', containsText,
        decide_eq_false_iff_not] at hconfig
      rcases hconfig.2 with hempty | hslash
      · rw [hempty]
        exact ⟨by decide, .inl rfl⟩
      · exact ⟨hslash.2, .inr hslash.1.1.1⟩
  rcases hparts.2 with hempty | hslash
  · rw [hempty, List.nil_append] at hmem
    exact hstorage (isInfix_of_mem_splitOn hmem)
  · obtain ⟨front, hfront⟩ := List.getLast?_eq_some_iff.mp hslash
    rw [hfront, List.append_assoc, List.singleton_append, List.splitOn_append_cons_of_beq _ _ (beq_self_eq_true _),
      List.mem_append] at hmem
    rcases hmem with hmem | hmem
    · apply hparts.1
      rw [hfront]
      exact (isInfix_of_mem_splitOn hmem).trans (List.prefix_append _ _).isInfix
    · exact hstorage (isInfix_of_mem_splitOn hmem)

theorem path_kept_iff {config : Config} {storageKey key : Text} (hconfig : validConfig config = true)
    (hkey : objectKey config storageKey = some key) :
    serializePath (pushSegments [] ((percentEncode config.bucket true ++
        0x2F :: percentEncode key false).splitOn 0x2F)) = canonicalUri (some config.bucket) key ↔ KeyKept key := by
  have hbucket : config.bucket ≠ [] ∧ ∀ byte ∈ config.bucket, byte ≠ 0x2E := by
    have hbyte : ∀ byte : UInt8, isLowercase byte = true ∨ isDigit byte = true ∨ byte = 0x2D → byte ≠ 0x2E := by
      rintro byte hbyte rfl
      exact absurd hbyte (by decide)
    rw [validConfig] at hconfig
    split at hconfig
    · cases hconfig
    · simp only [Bool.and_eq_true, validComponent, Bool.not_eq_true', List.isEmpty_eq_false_iff, List.all_eq_true,
        Bool.or_eq_true, beq_iff_eq, or_assoc] at hconfig
      exact ⟨hconfig.1.2.1.1, fun byte hmem => hbyte byte (hconfig.1.2.2 byte hmem)⟩
  have hdotless : ∀ segment ∈ [percentEncode config.bucket true], isSingleDot segment = false ∧
      isDoubleDot segment = false := by
    obtain ⟨first, rest, hcons⟩ := List.exists_cons_of_ne_nil hbucket.1
    have hfirst : first ≠ 0x2E := hbucket.2 first (hcons ▸ List.mem_cons_self)
    intro segment hmem
    rw [List.mem_singleton] at hmem
    subst hmem
    constructor
    · rw [← Bool.not_eq_true, isSingleDot_percentEncode, hcons]
      exact fun heq => hfirst (List.cons.inj heq).1
    · rw [← Bool.not_eq_true]
      intro hdots
      have hdecode := decode_of_isDoubleDot hdots
      rw [decode_percentEncode, hcons] at hdecode
      exact hfirst (List.cons.inj hdecode).1
  have hsegments : (percentEncode config.bucket true ++ 0x2F :: percentEncode key false).splitOn 0x2F =
      percentEncode config.bucket true :: (key.splitOn 0x2F).map fun segment => percentEncode segment false := by
    have hslash : 0x2F ∉ percentEncode config.bucket true := not_mem_percentEncode true _ (by decide) (by decide)
    rw [List.splitOn_append_cons_of_beq _ _ (beq_self_eq_true _), List.splitOn_eq_singleton hslash,
      List.singleton_append, percentEncode, percentEncode, splitOn_encode (by decide) (by decide) (by decide)]
    rfl
  have hkept : ∀ segment ∈ (percentEncode config.bucket true ++ 0x2F :: percentEncode key false).splitOn 0x2F,
      Kept segment := by
    intro segment hmem byte hbyte
    have hwhole := (isInfix_of_mem_splitOn hmem).subset hbyte
    rcases List.mem_append.mp hwhole with hmem | hmem
    · exact (percentEncode_byte hmem).2
    · rcases List.mem_cons.mp hmem with rfl | hmem
      · decide
      · exact (percentEncode_byte hmem).2
  have hdouble : ∀ segment ∈ (percentEncode config.bucket true ++ 0x2F :: percentEncode key false).splitOn 0x2F,
      isDoubleDot segment = false := by
    rw [hsegments]
    intro segment hmem
    rcases List.mem_cons.mp hmem with rfl | hmem
    · exact (hdotless _ List.mem_cons_self).2
    · obtain ⟨plain, hplain, rfl⟩ := List.mem_map.mp hmem
      rw [← Bool.not_eq_true]
      intro hdots
      have hdecode := decode_of_isDoubleDot hdots
      rw [decode_percentEncode] at hdecode
      exact not_doubleDot hconfig hkey hplain (hdecode.trans (by decide))
  have huri : canonicalUri (some config.bucket) key =
      serializePath ((percentEncode config.bucket true ++ 0x2F :: percentEncode key false).splitOn 0x2F) := by
    rw [serializePath_splitOn, canonicalUri]
  rw [huri, pushSegments_kept_iff hkept hdouble, hsegments]
  constructor
  · intro hsingle hdot
    have hfound := hsingle _ (List.mem_cons_of_mem _ (List.mem_map_of_mem hdot))
    rw [(isSingleDot_percentEncode [0x2E] false).mpr rfl] at hfound
    cases hfound
  · intro hplain segment hmem
    rcases List.mem_cons.mp hmem with rfl | hmem
    · exact (hdotless _ List.mem_cons_self).1
    · obtain ⟨found, hfound, rfl⟩ := List.mem_map.mp hmem
      rw [← Bool.not_eq_true, isSingleDot_percentEncode]
      rintro rfl
      exact hplain hfound

/-! ### The client -/

theorem presign_parts {prims : Primitives} {hmac : List UInt8 → List UInt8 → List UInt8} {method key : Text}
    {config : Config} {credential : Credential} {expiresSeconds : Nat} {query requiredHeaders : List Pair}
    {reading : Option Text} {url authority : Text}
    (hurl : presign prims hmac method config credential key expiresSeconds query requiredHeaders reading = some url)
    (hauthority : hostOf config.endpoint = some authority) :
    validConfig config = true ∧ ∃ (middle : Text) (last : UInt8), isC0OrSpace last = false ∧
      url = https ++ (authority ++ 0x2F :: ((percentEncode config.bucket true ++ 0x2F :: percentEncode key false) ++
        0x3F :: (middle ++ [last]))) := by
  obtain ⟨timestamp, _, hurl⟩ := Option.bind_eq_some_iff.mp hurl
  obtain ⟨hchecks, hurl⟩ := Option.ite_none_left_eq_some.mp hurl
  rw [Bool.or_eq_true, not_or, Bool.not_eq_true', Bool.not_eq_true', Bool.not_eq_false] at hchecks
  refine ⟨hchecks.1, ?_⟩
  obtain ⟨canonical, hcanonical, rfl⟩ := Option.map_eq_some_iff.mp hurl
  obtain ⟨host, hsignable⟩ := canonicalAt_spec hcanonical
  have hendpoint : config.endpoint = https ++ authority := by
    rw [hostOf] at hauthority
    obtain ⟨hscheme, hauthority⟩ := Option.ite_none_right_eq_some.mp hauthority
    obtain ⟨_, hauthority⟩ := Option.ite_none_left_eq_some.mp hauthority
    obtain ⟨rest, hrest⟩ := List.isPrefixOf_iff_prefix.mp hscheme
    have hhttps : utf8 "https://" = https := by decide
    rw [← Option.some.inj hauthority, ← hrest, hhttps]
    rfl
  generalize hsignature : signatureOf prims hmac (signingTarget config) credential
    ⟨method, key, expiresSeconds, query, requiredHeaders, timestamp⟩ canonical = signature
  have hplain : ∀ byte ∈ 0x3D :: signature, isC0OrSpace byte = false := by
    have hbyte : ∀ bits : BitVec 8, unreserved true ⟨bits⟩ = true → isC0OrSpace ⟨bits⟩ = false := by decide
    intro byte hmem
    rcases List.mem_cons.mp hmem with rfl | hmem
    · decide
    · rw [← hsignature] at hmem
      exact hbyte byte.toBitVec (hexEncode_unreserved _ byte hmem)
  have hne : 0x3D :: signature ≠ [] := List.cons_ne_nil _ _
  refine ⟨canonical.query ++ 0x26 :: (signatureName ++ (0x3D :: signature).dropLast), (0x3D :: signature).getLast hne,
    hplain _ (List.getLast_mem hne), ?_⟩
  have huri : canonical.uri = canonicalUri (some config.bucket) key := hsignable.uri
  change config.endpoint ++ _ = _
  rw [huri, hendpoint, canonicalUri]
  simp only [List.append_assoc, List.cons_append, List.dropLast_append_getLast hne]

/-- A client that follows a presigned URL goes to the signed host and requests the signed path, the bucket and the prefix
followed by the storage key, exactly if host and key are kept. -/
theorem presign_kept_iff (prims : Primitives) (hmac : List UInt8 → List UInt8 → List UInt8) (hosts : HostPrimitives)
    (method storageKey key : Text) (config : Config) (credential : Credential) (expiresSeconds : Nat)
    (query requiredHeaders : List Pair) (reading : Option Text) (url authority : Text)
    (hurl : presign prims hmac method config credential key expiresSeconds query requiredHeaders reading = some url)
    (hkey : objectKey config storageKey = some key) (hauthority : hostOf config.endpoint = some authority) :
    (∃ destination, parseHttps hosts url = some destination ∧ destination.host = trim authority ∧
      hostSuffix <:+ destination.host ∧ destination.port = none ∧
      destination.path = canonicalUri (some config.bucket) (config.keyPrefix ++ storageKey)) ↔
        HostKept hosts authority ∧ KeyKept (config.keyPrefix ++ storageKey) := by
  obtain ⟨hconfig, middle, last, hlast, rfl⟩ := presign_parts hurl hauthority
  have hwhole : key = config.keyPrefix ++ storageKey := by
    rw [objectKey] at hkey
    obtain ⟨_, hkey⟩ := Option.ite_none_left_eq_some.mp hkey
    exact (Option.some.inj hkey).symm
  subst hwhole
  have hsuffix : hostSuffix <:+ authority := by
    rw [validConfig, hauthority] at hconfig
    simp only [Bool.and_eq_true, Bool.or_eq_true, List.isSuffixOf_iff_suffix] at hconfig
    rcases hconfig.1.1 with (hplain | heurope) | hfedramp
    · exact hplain
    · exact List.IsSuffix.trans (by decide +kernel) heurope
    · exact List.IsSuffix.trans (by decide +kernel) hfedramp
  obtain ⟨spaces, rest, htrimmed⟩ := exists_trimmed hsuffix
  have hinner : ∀ byte ∈ percentEncode config.bucket true ++ 0x2F :: percentEncode (config.keyPrefix ++ storageKey) false,
      isPathByte byte = true := by
    intro byte hmem
    rcases List.mem_append.mp hmem with hmem | hmem
    · exact (percentEncode_byte hmem).1
    · rcases List.mem_cons.mp hmem with rfl | hmem
      · decide
      · exact (percentEncode_byte hmem).1
  -- what the client reads once the host has no character with a meaning
  have hread : (∀ byte ∈ rest ++ hostSuffix, isForbidden byte = false) →
      parseHttps hosts (https ++ (authority ++ 0x2F :: ((percentEncode config.bucket true ++
        0x2F :: percentEncode (config.keyPrefix ++ storageKey) false) ++ 0x3F :: (middle ++ [last])))) =
      (parseHost hosts (withoutTabs authority)).map fun host =>
        ⟨host, none, serializePath (pushSegments [] ((percentEncode config.bucket true ++
          0x2F :: percentEncode (config.keyPrefix ++ storageKey) false).splitOn 0x2F))⟩ := by
    intro hallowed
    apply parseHttps_plain _ (fun byte hmem => (withoutTabs_plain htrimmed hallowed byte hmem).1) hinner hlast
    rw [withoutTabs_eq htrimmed hallowed]
    intro hnil
    have hempty := (List.append_eq_nil_iff.mp (List.append_eq_nil_iff.mp hnil).2).2
    exact absurd hempty (by decide +kernel)
  rw [← path_kept_iff hconfig hkey, ← parseHost_kept_iff hosts htrimmed]
  constructor
  · rintro ⟨destination, hparse, hhost, _, _, hpath⟩
    obtain ⟨host, hfound⟩ := parseHttps_host hparse
    rw [hhost, htrimmed.trim] at hfound
    have hallowed := ((parseHost_eq_some (isDomain_append_hostSuffix rest)).mp hfound).2.2
    rw [hread hallowed] at hparse
    obtain ⟨found, hparsed, rfl⟩ := Option.map_eq_some_iff.mp hparse
    exact ⟨⟨hhost ▸ hparsed, htrimmed.trim ▸ hallowed⟩, hpath⟩
  · rintro ⟨⟨hparsed, hallowed⟩, hpath⟩
    rw [htrimmed.trim] at hallowed
    refine ⟨_, by rw [hread hallowed, hparsed, Option.map_some], rfl, ?_, rfl, hpath⟩
    rw [htrimmed.trim]
    exact List.suffix_append _ _

/-- A host parser for plain ASCII domains. -/
def asciiHosts : HostPrimitives where
  domainToAscii _ := none
  parseIpv4 _ := none
  parseIpv6 _ := none

def zeroDigest : Primitives := ⟨fun _ => Bytes.zero 32, fun _ => true⟩

def accountUrl (endpoint storageKey : Text) : Option Text :=
  presign zeroDigest (fun key _ => key) (utf8 "GET") ⟨endpoint, utf8 "payload-dev", utf8 "skydriver/"⟩
    ⟨utf8 "test-access", utf8 "test-secret"⟩ (utf8 "skydriver/" ++ storageKey) 60 [] []
    (some (utf8 "20260715T120000Z"))

theorem presign_kept_iff_account :
    ∃ url, accountUrl (utf8 "https://account.r2.cloudflarestorage.com") (utf8 "objects/value") = some url ∧
      ((∃ destination, parseHttps asciiHosts url = some destination ∧
        destination.host = trim (utf8 "account.r2.cloudflarestorage.com") ∧ hostSuffix <:+ destination.host ∧
        destination.port = none ∧
        destination.path = canonicalUri (some (utf8 "payload-dev")) (utf8 "skydriver/" ++ utf8 "objects/value")) ↔
          HostKept asciiHosts (utf8 "account.r2.cloudflarestorage.com") ∧
            KeyKept (utf8 "skydriver/" ++ utf8 "objects/value")) := by
  have hsome : (accountUrl (utf8 "https://account.r2.cloudflarestorage.com") (utf8 "objects/value")).isSome = true := by
    decide +kernel
  obtain ⟨url, hurl⟩ := Option.isSome_iff_exists.mp hsome
  exact ⟨url, hurl, presign_kept_iff zeroDigest (fun key _ => key) asciiHosts (utf8 "GET") (utf8 "objects/value") _
    ⟨utf8 "https://account.r2.cloudflarestorage.com", utf8 "payload-dev", utf8 "skydriver/"⟩ _ 60 [] [] _ url _ hurl
    (by decide +kernel) (by decide +kernel)⟩

/-- An endpoint with a backslash passes the checks, and a client goes to the host in front of it; a key with a dot
segment passes them, and a client requests another path. -/
theorem presign_leads_elsewhere :
    (validConfig ⟨utf8 "https://elsewhere.example\\.r2.cloudflarestorage.com", utf8 "payload-dev", utf8 "skydriver/"⟩ =
        true ∧
      ((accountUrl (utf8 "https://elsewhere.example\\.r2.cloudflarestorage.com") (utf8 "objects/value")).bind
          (parseHttps asciiHosts)).map (fun destination => destination.host) = some (utf8 "elsewhere.example")) ∧
    (objectKey ⟨utf8 "https://account.r2.cloudflarestorage.com", utf8 "payload-dev", utf8 "skydriver/"⟩
        (utf8 "objects/./value") = some (utf8 "skydriver/objects/./value") ∧
      ((accountUrl (utf8 "https://account.r2.cloudflarestorage.com") (utf8 "objects/./value")).bind
          (parseHttps asciiHosts)).map (fun destination => destination.path) =
        some (utf8 "/payload-dev/skydriver/objects/value")) := by
  decide +kernel

end Skydriver.R2Signing
