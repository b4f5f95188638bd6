import Semantik.RustStd

/-!
# Limits of the Semantik API

The server's limits and the caps of the client, in bytes unless the name says otherwise.
-/

namespace Semantik

def maxVectorDim : ℕ := 4096

def maxTextBytes : ℕ := 32 * 1024

def maxMetadataKeys : ℕ := 16

def maxMetadataKeyLen : ℕ := 64

def maxMetadataValueLen : ℕ := 256

def maxMetadataTotalBytes : ℕ := 4 * 1024

def maxSearchBodyBytes : ℕ := 1024 * 1024

def maxPublishBodyBytes : ℕ := 2 * 1024 * 1024

def maxSubscribeBodyBytes : ℕ := 1024 * 1024

def maxLintBodyBytes : ℕ := 64 * 1024

def maxIdempotencyKeyLen : ℕ := 256

def maxResponseBytes : ℕ := 1024 * 1024

def maxSseFrameBytes : ℕ := 64 * 1024

def maxErrorBodyBytes : ℕ := 64 * 1024

def maxRetryAfter : Duration := .fromSecs 3600

end Semantik
