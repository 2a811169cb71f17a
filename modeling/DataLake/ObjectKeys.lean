import DataLake.Errors
import DataLake.Foundation.Sha256

/-! Object-storage keys: how they are written and what is read back from them.
The encoder and the three decoders live in different functions of the source. -/

namespace DataLake

open Foundation

structure Uuid where
  bits : BitVec 128
deriving DecidableEq

def Uuid.hex (u : Uuid) : Text := hexDigits 32 u.bits.toNat

/-- `str` of a UUID: its hexadecimal digits in groups of 8, 4, 4, 4 and 12. -/
def Uuid.text (u : Uuid) : Text :=
  u.hex.take 8 ++ '-' :: ((u.hex.drop 8).take 4 ++ '-' :: ((u.hex.drop 12).take 4 ++
    '-' :: ((u.hex.drop 16).take 4 ++ '-' :: u.hex.drop 20)))

theorem Uuid.hex_inj {u v : Uuid} (h : u.hex = v.hex) : u = v := by
  have hbits := hexDigits_inj (w := 32) u.bits.isLt v.bits.isLt h
  cases u; cases v
  exact congrArg Uuid.mk (BitVec.eq_of_toNat_eq hbits)

theorem Uuid.mem_hex {u : Uuid} {c : Char} (h : c ∈ u.hex) :
    c ∈ "0123456789abcdef".toList := mem_hexDigits h

theorem Uuid.text_filter (u : Uuid) : u.text.filter (· ≠ '-') = u.hex := by
  have keep : ∀ l : Text, (∀ c ∈ l, c ∈ u.hex) → l.filter (· ≠ '-') = l := by
    intro l hl
    refine List.filter_eq_self.mpr fun c hc => ?_
    have hne : c ≠ '-' := by
      rintro rfl
      exact absurd (Uuid.mem_hex (hl _ hc)) (by decide)
    simpa using hne
  have take : ∀ m n, ∀ c ∈ (u.hex.drop m).take n, c ∈ u.hex := fun m n c hc =>
    List.mem_of_mem_drop (List.mem_of_mem_take hc)
  have split : ∀ m n, (u.hex.drop m).take n ++ u.hex.drop (m + n) = u.hex.drop m := by
    intro m n
    rw [← List.drop_drop, List.take_append_drop]
  have h0 : (u.hex.take 8).filter (· ≠ '-') = u.hex.take 8 := by
    simpa using keep ((u.hex.drop 0).take 8) (take 0 8)
  have h20 : (u.hex.drop 20).filter (· ≠ '-') = u.hex.drop 20 :=
    keep _ fun c hc => List.mem_of_mem_drop hc
  have dash : ∀ l : Text, ('-' :: l).filter (· ≠ '-') = l.filter (· ≠ '-') := fun l => by simp
  rw [Uuid.text, List.filter_append, dash, List.filter_append, dash, List.filter_append, dash,
    List.filter_append, dash, h0, keep _ (take 8 4), keep _ (take 12 4), keep _ (take 16 4), h20,
    split 16 4, split 12 4, split 8 4, List.take_append_drop]

theorem Uuid.text_inj {u v : Uuid} (h : u.text = v.text) : u = v := by
  apply Uuid.hex_inj
  rw [← Uuid.text_filter, ← Uuid.text_filter, h]

theorem Uuid.mem_text {u : Uuid} {c : Char} (h : c ∈ u.text) :
    c ∈ "-0123456789abcdef".toList := by
  by_cases hc : c = '-'
  · simp [hc]
  · have hh : c ∈ u.text.filter (· ≠ '-') := List.mem_filter.mpr ⟨h, by simpa using hc⟩
    rw [Uuid.text_filter] at hh
    exact List.mem_cons_of_mem _ (Uuid.mem_hex hh)

theorem Uuid.slash_notMem_text (u : Uuid) : '/' ∉ u.text := fun h =>
  absurd (Uuid.mem_text h) (by decide)

@[simp] theorem Uuid.length_text (u : Uuid) : u.text.length = 36 := by
  simp [Uuid.text, Uuid.hex]

attribute [irreducible] Uuid.text

def rawSuffix : Text := ".raw".toList

def keyFilename (sequence : Nat) (checksum : Text) : Text :=
  zeroPad 6 sequence ++ '-' :: (checksum ++ rawSuffix)

/-- The key a caller gives to the store, without any tenant prefix. -/
def logicalKey (pipeline run : Uuid) (sequence : Nat) (checksum : Text) : Text :=
  pipeline.text ++ '/' :: (run.text ++ '/' :: keyFilename sequence checksum)

def prefixedKey (pre key : Text) : Text := pre ++ '/' :: key

/-- `_tenant_key`: the backend's own prefix, whatever key it is given. -/
def tenantKey (tenant : Uuid) (key : Text) : Text := prefixedKey tenant.text key

/-- `_checksum_from_key`. -/
def checksumFromKey (key : Text) : Option Text :=
  let filename := lastSegment '/' key
  if rawSuffix <:+ filename then
    let stem := dropEnd rawSuffix.length filename
    match partition '-' stem with
    | (_, true, checksum) => if checksum.length ≠ 64 then none else some checksum
    | (_, false, _) => none
  else none

theorem slash_notMem_keyFilename (sequence : Nat) {checksum : Text} (hc : '/' ∉ checksum) :
    '/' ∉ keyFilename sequence checksum := by
  have hz := not_mem_zeroPad (c := '/') (by decide) 6 sequence
  simp only [keyFilename, rawSuffix, List.mem_append, List.mem_cons]
  rintro (h | h | h | h)
  · exact hz h
  · exact absurd h (by decide)
  · exact hc h
  · exact absurd h (by decide)

theorem slash_notMem_sha256hex (data : Bytes) : '/' ∉ sha256hex data := fun h =>
  absurd (mem_sha256hex h) (by decide)

theorem checksumFromKey_append (pre : Text) (sequence : Nat) {checksum : Text}
    (hslash : '/' ∉ checksum) (hlen : checksum.length = 64) :
    checksumFromKey (pre ++ '/' :: keyFilename sequence checksum) = some checksum := by
  have hseg := lastSegment_append pre (slash_notMem_keyFilename sequence hslash)
  have hsplit : keyFilename sequence checksum =
      (zeroPad 6 sequence ++ '-' :: checksum) ++ rawSuffix := by simp [keyFilename]
  have hsuf : rawSuffix <:+ keyFilename sequence checksum := hsplit ▸ List.suffix_append _ _
  have hpart := partition_append (not_mem_zeroPad (c := '-') (by decide) 6 sequence) checksum
  simp only [checksumFromKey, hseg, hsuf, if_true]
  rw [hsplit, dropEnd_append, hpart]
  simp [hlen]

theorem checksumFromKey_tenantKey (tenant pipeline run : Uuid) (sequence : Nat) {checksum : Text}
    (hslash : '/' ∉ checksum) (hlen : checksum.length = 64) :
    checksumFromKey (tenantKey tenant (logicalKey pipeline run sequence checksum)) =
      some checksum := by
  have hk : tenantKey tenant (logicalKey pipeline run sequence checksum) =
      (tenant.text ++ '/' :: (pipeline.text ++ '/' :: run.text)) ++
        '/' :: keyFilename sequence checksum := by
    simp [tenantKey, prefixedKey, logicalKey]
  rw [hk, checksumFromKey_append _ _ hslash hlen]

theorem keyFilename_inj {s s' : Nat} {c c' : Text} (h : keyFilename s c = keyFilename s' c') :
    s = s' ∧ c = c' := by
  obtain ⟨hs, hc⟩ := cut_inj (not_mem_zeroPad (c := '-') (by decide) 6 s)
    (not_mem_zeroPad (c := '-') (by decide) 6 s') h
  exact ⟨zeroPad_inj hs, List.append_cancel_right hc⟩

theorem logicalKey_inj {p p' r r' : Uuid} {s s' : Nat} {c c' : Text}
    (h : logicalKey p r s c = logicalKey p' r' s' c') :
    p = p' ∧ r = r' ∧ s = s' ∧ c = c' := by
  obtain ⟨hp, h⟩ := cut_inj p.slash_notMem_text p'.slash_notMem_text h
  obtain ⟨hr, h⟩ := cut_inj r.slash_notMem_text r'.slash_notMem_text h
  obtain ⟨hs, hc⟩ := keyFilename_inj h
  exact ⟨Uuid.text_inj hp, Uuid.text_inj hr, hs, hc⟩

theorem tenantKey_inj {u u' : Uuid} {k k' : Text} (h : tenantKey u k = tenantKey u' k') :
    u = u' ∧ k = k' := by
  obtain ⟨hu, hk⟩ := cut_inj u.slash_notMem_text u'.slash_notMem_text h
  exact ⟨Uuid.text_inj hu, hk⟩

theorem tenantKey_ne_nil (tenant : Uuid) (key : Text) : tenantKey tenant key ≠ [] := by
  simp [tenantKey, prefixedKey]

theorem partition_tenantKey (tenant : Uuid) (key : Text) :
    partition '/' (tenantKey tenant key) = (tenant.text, true, key) :=
  partition_append tenant.slash_notMem_text key

/-- A bucket name: not empty, and without a slash. -/
structure BucketName where
  name : Text
  nonempty : name ≠ []
  noSlash : '/' ∉ name

/-- The bucket of the runs on fixed inputs. -/
def smallBucket : BucketName := ⟨"raw".toList, by decide, by decide⟩

def uriScheme : Text := "s3://".toList

def storageUri (bucket : BucketName) (key : Text) : Text := uriScheme ++ (bucket.name ++ '/' :: key)

def notAValidUri (uri : Text) : DataLakeError :=
  rawPayloadAccessDenied s!"not a valid raw payload URI: {pyRepr uri}"

/-- `_parse_uri`. -/
def parseUri (bucket : BucketName) (uri : Text) : Except DataLakeError (Text × Text) :=
  if uriScheme <+: uri then
    let (name, _, key) := partition '/' (uri.drop uriScheme.length)
    if name = [] ∨ key = [] then .error (notAValidUri uri)
    else if name ≠ bucket.name then
      .error (rawPayloadAccessDenied (s!"refusing to read from bucket {pyRepr name}; only " ++
        s!"{pyRepr bucket.name} is configured"))
    else .ok (name, key)
  else .error (notAValidUri uri)

theorem length_storageUri (bucket : BucketName) (tenant pipeline run : Uuid) (sequence : Nat)
    (checksum : Text) :
    (storageUri bucket (tenantKey tenant (logicalKey pipeline run sequence checksum))).length =
      bucket.name.length + (zeroPad 6 sequence).length + checksum.length + 122 := by
  have hscheme : uriScheme.length = 5 := by decide
  have hsuffix : rawSuffix.length = 4 := by decide
  simp only [storageUri, tenantKey, prefixedKey, logicalKey, keyFilename, List.length_append,
    List.length_cons, Uuid.length_text, hscheme, hsuffix]
  omega

theorem parseUri_storageUri (bucket : BucketName) {key : Text} (hk : key ≠ []) :
    parseUri bucket (storageUri bucket key) = .ok (bucket.name, key) := by
  have hpre : uriScheme <+: storageUri bucket key := List.prefix_append _ _
  have hdrop : (storageUri bucket key).drop uriScheme.length = bucket.name ++ '/' :: key := by
    rw [storageUri, List.drop_left']
    rfl
  simp [parseUri, hpre, hdrop, partition_append bucket.noSlash, bucket.nonempty, hk]

theorem parseUri_ok {bucket : BucketName} {uri name key : Text}
    (h : parseUri bucket uri = .ok (name, key)) :
    name = bucket.name ∧ uri = storageUri bucket key ∧ key ≠ [] := by
  unfold parseUri at h
  split at h
  · rename_i hpre
    obtain ⟨rest, rfl⟩ := hpre
    simp only [List.drop_left] at h
    have hs := (partition_spec '/' rest).2
    split at h
    · cases h
    · rename_i hne
      split at h
      · cases h
      · rename_i hname
        obtain ⟨rfl, rfl⟩ : (partition '/' rest).1 = name ∧ (partition '/' rest).2.2 = key := by
          simpa using h
        obtain ⟨hn, hk⟩ := not_or.mp hne
        have heq := not_not.mp hname
        rcases hs with ⟨-, hs⟩ | ⟨-, -, hs⟩
        · exact ⟨heq, by rw [storageUri, ← heq, ← hs], hk⟩
        · exact absurd hs hk
  · cases h

theorem storageUri_inj {bucket : BucketName} {k k' : Text}
    (h : storageUri bucket k = storageUri bucket k') : k = k' := by
  have hh := List.append_cancel_left h
  exact (cut_inj bucket.noSlash bucket.noSlash hh).2

end DataLake
