import XavierDB.Config.Disk

/-!
# The encoding of a configuration

`bincode` in its standard configuration and the CRC-32 of `crc32fast`, for
closed instances.
-/

namespace XavierDB.Config

def globalCodec : Codec GlobalCfg :=
  (Codec.u64.prod .utf8).imap (fun p => ⟨p.1, p.2⟩)
    (fun g => (g.jwtTokenLifetimeMinutes, g.permissionFile)) fun _ => rfl

def rateLimitCodec : Codec RateLimitCfg :=
  (Codec.u32.prod (.prod .u32 (.prod .f64 (.prod .f64 (.prod .f64 (.prod .f64 (.prod .f64
    (.prod .u64 (.prod .f64 (.map .utf8 .f64)))))))))).imap
    (fun ⟨a, b, c, d, e, f, g, h, i, j⟩ => ⟨a, b, c, d, e, f, g, h, i, j⟩)
    (fun r => (r.minLimit, r.maxLimit, r.multiplier, r.targetLatencyMs, r.pressureSensitivity,
      r.latencySensitivity, r.growthRate, r.tickSeconds, r.emaAlpha, r.weights)) fun _ => rfl

def authCodec : Codec AuthCfg :=
  (Codec.u32.prod .u64).imap (fun p => ⟨p.1, p.2⟩)
    (fun a => (a.maxPerMinutePerIp, a.sessionTtlHours)) fun _ => rfl

def entryCodec : Codec HistoryEntry :=
  (Codec.i64.prod (.prod .utf8 (.prod .utf8 (.prod (.seq .u8) .utf8)))).imap
    (fun ⟨a, b, c, d, e⟩ => ⟨a, b, c, d, e⟩)
    (fun e => (e.ts, e.desc, e.path, e.snapshot, e.by)) fun _ => rfl

def configCodec : Codec ConfigFile :=
  (Codec.u32.prod (.prod .i64 (.prod .i64 (.prod globalCodec (.prod rateLimitCodec
    (.prod .u64 (.prod .utf8 (.prod authCodec (.prod (.seq .utf8)
      (.prod (.seq entryCodec) (.seq entryCodec))))))))))).imap
    (fun ⟨a, b, c, d, e, f, g, h, i, j, k⟩ => ⟨a, b, c, d, e, ⟨f⟩, ⟨g⟩, h, i, j, k⟩)
    (fun c => (c.version, c.createdAt, c.lastModified, c.global, c.rateLimit,
      c.health.cacheTtlSeconds, c.dashboard.logLevel, c.auth, c.blocked, c.history, c.redo))
    fun _ => rfl

def standardBincode : Bincode where
  encodeToVec c := .ok (configCodec.encode c)
  decodeFromSlice bytes := match configCodec.decode bytes with
    | some (c, _) => .ok c
    | none => .error "unexpected end"
  decode_encode c := by
    have h := configCodec.decode_encode c []
    rw [List.append_nil] at h
    refine ⟨_, rfl, ?_⟩
    rw [h]

/-! ## CRC-32 -/

def crcBits : Nat → UInt32 → UInt32
  | 0, c => c
  | n + 1, c => crcBits n (if c &&& 1 = 1 then (c >>> 1) ^^^ 0xEDB88320 else c >>> 1)

def crc32 (bytes : Bytes) : UInt32 :=
  bytes.foldl (fun c b => crcBits 8 (c ^^^ b.toUInt32)) 0xFFFFFFFF ^^^ 0xFFFFFFFF

example : crc32 "123456789".toUTF8.data.toList = 0xCBF43926 := by decide +kernel

end XavierDB.Config
