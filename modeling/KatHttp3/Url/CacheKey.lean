import KatHttp3.Url.Resolution

/-!
# Printed URLs as keys

Cache entries are filed under the printed URL. Two URLs are printed alike
exactly if they name the same host bytes, port and request target.
-/

namespace KatHttp3

variable {net : InetPton}

theorem Url.normalized_requestTarget (u : Url) :
    u.normalized.requestTarget = u.requestTarget := by
  rw [Url.requestTarget_eq, Url.requestTarget_eq, Url.normalized_normalized]
  rfl

/-- What is printed depends on the host, the port and the target alone. -/
theorem Url.WellFormed.toString_eq_iff {u v : Url} (hu : u.WellFormed net)
    (hv : v.WellFormed net) : u.toString = v.toString ↔
      u.host = v.host ∧ u.effectivePort = v.effectivePort ∧
        u.requestTarget = v.requestTarget := by
  constructor
  · intro hprinted
    have hparsed := hu.parse_toString
    rw [hprinted, hv.parse_toString] at hparsed
    have hsame : u.normalized = v.normalized := (Option.some.inj hparsed).symm
    have hhost : u.normalized.host = v.normalized.host := congrArg Url.host hsame
    refine ⟨hhost, ?_, ?_⟩
    · rw [← Url.normalized_effectivePort u, hsame, Url.normalized_effectivePort]
    · rw [← Url.normalized_requestTarget u, hsame, Url.normalized_requestTarget]
  · rintro ⟨hhost, hport, htarget⟩
    have hscheme : u.scheme = v.scheme := hu.scheme.trans hv.scheme.symm
    rw [Url.toString, Url.toString, Url.authority_eq, Url.authority_eq, hscheme, hhost, hport,
      htarget]

/-- The URL that is read back from the printed one. -/
structure ReadBack (net : InetPton) (u v : Url) : Prop where
  parses : parseUrl net u.toString = some v
  scheme : v.scheme = u.scheme
  host : v.host = u.host
  effectivePort : v.effectivePort = u.effectivePort
  requestTarget : v.requestTarget = u.requestTarget
  fixed : v.toString = u.toString

theorem Url.WellFormed.readBack {u : Url} (h : u.WellFormed net) :
    ReadBack net u u.normalized := by
  have hscheme : u.normalized.scheme = u.scheme := rfl
  have hhost : u.normalized.host = u.host := rfl
  refine ⟨h.parse_toString, hscheme, hhost, u.normalized_effectivePort,
    u.normalized_requestTarget, ?_⟩
  rw [Url.toString, Url.toString, Url.authority_eq, Url.authority_eq, hscheme, hhost,
    u.normalized_effectivePort, u.normalized_requestTarget]

/-- An accepted URL survives printing, and the printed URL identifies its host, port
and request target. -/
theorem parseUrl_print {raw : Str} {u : Url} (h : parseUrl net raw = some u) :
    (∃ v, ReadBack net u v) ∧
      ∀ (raw' : Str) (u' : Url), parseUrl net raw' = some u' →
        (u.toString = u'.toString ↔ u.host = u'.host ∧ u.effectivePort = u'.effectivePort ∧
          u.requestTarget = u'.requestTarget) :=
  ⟨⟨_, (Url.parseUrl_wellFormed h).readBack⟩, fun _ _ h' =>
    (Url.parseUrl_wellFormed h).toString_eq_iff (Url.parseUrl_wellFormed h')⟩

/-- `HTTPS://a.test:443?q#top`, with the default port written out and no path. -/
def explicitDefault : Url := ⟨"https".toList, "a.test".toList, 443, [], "q".toList, true⟩

theorem parseUrl_print_explicitDefault :
    (∃ v, ReadBack noLiterals explicitDefault v) ∧
      ∀ (raw' : Str) (u' : Url), parseUrl noLiterals raw' = some u' →
        (explicitDefault.toString = u'.toString ↔ explicitDefault.host = u'.host ∧
          explicitDefault.effectivePort = u'.effectivePort ∧
            explicitDefault.requestTarget = u'.requestTarget) :=
  parseUrl_print (show parseUrl noLiterals "HTTPS://a.test:443?q#top".toList =
    some explicitDefault by decide +kernel)

end KatHttp3
